import Multisample.Numeric.Machine

/-!
# Decimal texts of floats

A float is written with the fewest digits that read back as itself, or with a
given number of digits.  All of it is decided on the exact value of the float,
in natural numbers.
-/

namespace Multisample

/-- The number `digits * 10 ^ exponent`. -/
structure Decimal where
  digits : Nat
  exponent : Int
deriving DecidableEq, Repr, Inhabited

namespace Decimal

/-- The digits of a natural number, none left out; zero has one. -/
def digitText (n : Nat) : List Char :=
  Nat.toDigits 10 n

/-- The place of the leading digit of `num / den`: 0 for units, 1 for tens. -/
def leadingPlace (num den : Nat) : Int :=
  if den ≤ num then (digitText (num / den)).length - 1
  else
    let places := (digitText (den / num)).length
    if den ≤ num * Nat.pow 10 (places - 1) then 1 - (places : Int) else -(places : Int)

/-- The number with so many significant digits that is nearest to a float that is not zero. -/
def significant (x : Binary) (count : Nat) : Decimal :=
  let (num, den) := x.ratio 0
  let place := leadingPlace num den
  let power := (count : Int) - 1 - place
  let digits := x.scaled power
  if digits = Nat.pow 10 count then ⟨digits / 10, 1 - power⟩ else ⟨digits, -power⟩

/-- Drops zeros at the end of the digits. -/
def strip : Nat → Decimal → Decimal
  | 0, d => d
  | fuel + 1, d =>
    if d.digits ≠ 0 ∧ d.digits % 10 = 0 then strip fuel ⟨d.digits / 10, d.exponent + 1⟩ else d

/-- Whether `candidate / 10 ^ power` rounds to the float: it lies between the middles to the two
neighbouring floats, which count themselves when the mantissa is even. -/
def readsBack (x : Binary) (power : Int) (candidate : Nat) : Bool :=
  let (num, den) := (⟨false, 1, x.exponent - 2⟩ : Binary).ratio power
  let below := if x.mantissa = 1 <<< 52 ∧ -1074 < x.exponent then 1 else 2
  let low := (4 * x.mantissa - below) * num
  let high := (4 * x.mantissa + 2) * num
  let value := candidate * den
  if x.mantissa % 2 = 0 then low ≤ value && value ≤ high else low < value && value < high

/-- Of the two neighbours on the grid of a power of ten, the nearer one that reads back. -/
def onGrid? (x : Binary) (power : Int) : Option Nat :=
  let (num, den) := x.ratio power
  let low := num / den
  let nearest := Binary.roundedQuotient num den
  let other := if nearest = low then low + 1 else low
  if readsBack x power nearest then some nearest
  else if readsBack x power other then some other else none

/-- Searches the grids from the coarsest on; seventeen digits always suffice. -/
def shortestFrom (x : Binary) (place : Int) : Nat → Nat → Decimal
  | 0, count => significant x count
  | fuel + 1, count =>
    let power := (count : Int) - 1 - place
    match onGrid? x power with
    | some digits => ⟨digits, -power⟩
    | none => shortestFrom x place fuel (count + 1)

/-- The number with the fewest digits that reads back as a given float. -/
def shortest (x : Binary) : Decimal :=
  if x.mantissa = 0 then ⟨0, 0⟩
  else
    let (num, den) := x.ratio 0
    strip 20 (shortestFrom x (leadingPlace num den) 16 1)

/-- The number written out without an exponent. -/
def positional (d : Decimal) : String :=
  let digits := digitText d.digits
  if d.digits = 0 then "0"
  else if 0 ≤ d.exponent then String.ofList (digits ++ List.replicate d.exponent.toNat '0')
  else
    let places := (-d.exponent).toNat
    let padded := List.replicate (places + 1 - digits.length) '0' ++ digits
    let whole := padded.length - places
    String.ofList (padded.take whole ++ '.' :: padded.drop whole)

/-- The float nearest to a number; far out there are only zero and infinity. -/
def toFloat (d : Decimal) : Float :=
  let place := (digitText d.digits).length + d.exponent
  if d.digits = 0 || place < -400 then 0
  else if 400 < place then 1 / 0
  else if d.exponent < 0 then Float.ofScientific d.digits true (-d.exponent).toNat
  else Float.ofScientific d.digits false d.exponent.toNat

/-- The number that a row of digits stands for. -/
def ofDigits (cs : List Char) : Nat :=
  cs.foldl (fun n c => 10 * n + (c.toNat - '0'.toNat)) 0

/-- Reads an exponent with its letter, or no exponent. -/
def readExponent? : List Char → Option Int
  | [] => some 0
  | letter :: rest =>
    if letter = 'e' || letter = 'E' then
      let (negative, digits) := match rest with
        | '-' :: more => (true, more)
        | '+' :: more => (false, more)
        | more => (false, more)
      if digits.isEmpty || !digits.all Char.isDigit then none
      else some (if negative then -(ofDigits digits : Int) else ofDigits digits)
    else none

/-- Reads digits with an optional point and exponent; one digit at least stands before the
exponent. -/
def read? (cs : List Char) : Option Decimal := do
  let whole := cs.takeWhile Char.isDigit
  let rest := cs.dropWhile Char.isDigit
  let (fraction, rest) := match rest with
    | '.' :: more => (more.takeWhile Char.isDigit, more.dropWhile Char.isDigit)
    | more => ([], more)
  guard (!(whole.isEmpty && fraction.isEmpty))
  let exponent ← readExponent? rest
  return ⟨ofDigits (whole ++ fraction), exponent - fraction.length⟩

end Decimal

/-- The text of a float with the fewest digits that read back, and no exponent. -/
def floatText (x : Float) : String :=
  match Binary.ofFloat? x with
  | some b => (if b.negative then "-" else "") ++ (Decimal.shortest b).positional
  | none => if x.isNaN then "NaN" else if x < 0 then "-inf" else "inf"

/-- The sign in front of a number, and what follows it. -/
def splitSign : List Char → Bool × List Char
  | '-' :: rest => (true, rest)
  | '+' :: rest => (false, rest)
  | cs => (false, cs)

/-- Reads a float: a sign, then a decimal number or a word for infinity or for no number. -/
def readFloat? (text : String) : Option Float := do
  let (negative, cs) := splitSign text.toList
  let magnitude ← match (String.ofList cs).toLower with
    | "inf" | "infinity" => some (1 / 0)
    | "nan" => some (0 / 0)
    | _ => (Decimal.read? cs).map Decimal.toFloat
  return if negative then -magnitude else magnitude

/-- Reads a whole number in base ten with an optional sign. -/
def readInt? (text : String) : Option Int :=
  let (negative, cs) := splitSign text.toList
  if cs.isEmpty || !cs.all Char.isDigit then none
  else some (if negative then -(Decimal.ofDigits cs : Int) else Decimal.ofDigits cs)

end Multisample
