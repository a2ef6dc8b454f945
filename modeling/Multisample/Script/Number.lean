import Multisample.Numeric.Notation
import Multisample.Text.Bytes

/-!
# Numbers of scripts

A number is a 64-bit integer, which wraps, or a float.  The two mix: an integer
counts as the float nearest to it, and a float without a fraction as the integer
it equals.
-/

namespace Multisample.Script

inductive Number where
  | int (n : Int64)
  | float (x : Float)
deriving Repr, Inhabited

namespace Number

def toFloat : Number → Float
  | int n => n.toFloat
  | float x => x

/-- The integer that a float equals. -/
def wholeOf? (x : Float) : Option Int64 :=
  if x.floor == x && -9223372036854775808.0 ≤ x && x < 9223372036854775808.0 then some x.toInt64
  else none

def toInt? : Number → Option Int64
  | int n => some n
  | float x => wholeOf? x

/-! ## Texts -/

/-- A float with fourteen significant digits; one that would read as an integer gets a point. -/
def floatText (x : Float) : String :=
  match Binary.ofFloat? x with
  | none => if x.isNaN then "-nan" else if x < 0 then "-inf" else "inf"
  | some b =>
    let text := Notation.general b 14 false
    let marked := if text.toList.all Char.isDigit then text ++ ".0" else text
    if b.negative then "-" ++ marked else marked

def text : Number → String
  | int n => toString n.toInt
  | float x => floatText x

/-- Digits in base sixteen with an optional point: the mantissa, and how many digits follow the
point. -/
def readHexDigits : List UInt8 → Bool → Nat → Nat → Nat × Nat × List UInt8
  | [], _, n, places => (n, places, [])
  | c :: rest, seenPoint, n, places =>
    if c == 46 && !seenPoint then readHexDigits rest true n places
    else if Bytes.isHexDigit c then
      readHexDigits rest seenPoint (16 * n + (Bytes.digitValue? c).getD 0)
        (if seenPoint then places + 1 else places)
    else (n, places, c :: rest)

/-- An exponent of two after its letter. -/
def readPower? : List UInt8 → Option Int
  | [] => some 0
  | c :: rest =>
    if c == 112 || c == 80 then
      let (negative, digits) := match rest with
        | 45 :: more => (true, more)
        | 43 :: more => (false, more)
        | more => (false, more)
      if digits.isEmpty || !digits.all Bytes.isDigit then none
      else
        let n : Nat := digits.foldl (fun n d => 10 * n + (d.toNat - 48)) 0
        some (if negative then -(n : Int) else n)
    else none

/-- A number in base sixteen after its mark: an integer, which wraps, or a float. -/
def readHex? (cs : List UInt8) : Option Number :=
  if !cs.isEmpty && cs.all Bytes.isHexDigit then
    some (.int (UInt64.ofNat (readHexDigits cs true 0 0).1).toInt64)
  else do
    let (n, places, rest) := readHexDigits cs false 0 0
    guard (cs.any Bytes.isHexDigit && rest.length < cs.length && cs != [46])
    let power ← readPower? rest
    let exponent := power - 4 * places
    let bounded := max (-100000) (min exponent 100000)
    return .float ((Float.ofNat n).scaleB bounded)

/-- A number in base ten: an integer if it is one and fits, else a float. -/
def readDecimal? (negative : Bool) (cs : List UInt8) : Option Number :=
  let n : Nat := cs.foldl (fun n d => 10 * n + (d.toNat - 48)) 0
  if !cs.isEmpty && cs.all Bytes.isDigit && n < (1 <<< 63) + (if negative then 1 else 0) then
    some (.int (Int64.ofInt (if negative then -(n : Int) else n)))
  else
    (Decimal.read? (cs.map fun c => Char.ofNat c.toNat)).map fun d =>
      .float (if negative then -d.toFloat else d.toFloat)

def negate : Number → Number
  | int n => int (-n)
  | float x => float (-x)

/-- Reads a number with blanks around it. -/
def read? (text : Bytes) : Option Number :=
  let (negative, cs) := match Bytes.trim text with
    | 45 :: rest => (true, rest)
    | 43 :: rest => (false, rest)
    | cs => (false, cs)
  match cs with
  | 48 :: 120 :: digits | 48 :: 88 :: digits =>
    (readHex? digits).map fun n => if negative then n.negate else n
  | _ => readDecimal? negative cs

/-! ## Arithmetic -/

/-- The quotient rounded down. -/
def floorDiv (a b : Int64) : Int64 :=
  let q := a / b
  if a % b != 0 && (decide (a % b < 0) != decide (b < 0)) then q - 1 else q

/-- The remainder with the sign of the divisor. -/
def floorMod (a b : Int64) : Int64 :=
  let r := a % b
  if r != 0 && (decide (r < 0) != decide (b < 0)) then r + b else r

/-- The remainder of floats with the sign of the divisor. -/
def floatMod (x y : Float) : Float :=
  let r := Binary.remainder x y
  if (if r > 0 then y < 0 else r < 0 && r != y && y > 0) then r + y else r

/-- Bits moved to the left; far moves, and those to the right, bring in zeros. -/
def shiftLeft (a b : Int64) : Int64 :=
  let bits := a.toUInt64
  let distance := b.toInt
  if distance ≤ -64 || 64 ≤ distance then 0
  else if 0 ≤ distance then (bits <<< UInt64.ofNat distance.toNat).toInt64
  else (bits >>> UInt64.ofNat distance.natAbs).toInt64

/-- Whether an integer is less than a float, decided on the exact values. -/
def intLtFloat (n : Int64) (x : Float) : Bool :=
  if x.isNaN then false
  else if 9223372036854775808.0 ≤ x then true
  else if x < -9223372036854775808.0 then false
  else
    let whole := x.floor.toInt64
    n < whole || (n == whole && x.floor < x)

def floatLtInt (x : Float) (n : Int64) : Bool :=
  if x.isNaN then false
  else if 9223372036854775808.0 ≤ x then false
  else if x < -9223372036854775808.0 then true
  else x.floor.toInt64 < n

def eq : Number → Number → Bool
  | int a, int b => a == b
  | float x, float y => x == y
  | int a, float y => (wholeOf? y).any (· == a)
  | float x, int b => (wholeOf? x).any (· == b)

def lt : Number → Number → Bool
  | int a, int b => a < b
  | float x, float y => x < y
  | int a, float y => intLtFloat a y
  | float x, int b => floatLtInt x b

def le (a b : Number) : Bool :=
  lt a b || eq a b

end Number

end Multisample.Script
