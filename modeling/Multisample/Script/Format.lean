import Multisample.Script.Number

/-!
# Formats

A format directive has flags, a width, a precision and a letter that says how
the argument is written.
-/

namespace Multisample.Script.Format

structure Directive where
  flags : List Char := []
  width : Nat := 0
  precision : Option Nat := none
  letter : Char := 's'
deriving Repr, Inhabited

namespace Directive

def has (d : Directive) (flag : Char) : Bool :=
  d.flags.contains flag

/-- Whether nothing stands between the mark and the letter. -/
def isBare (d : Directive) : Bool :=
  d.flags.isEmpty && d.width = 0 && d.precision.isNone

/-- The flags that a letter admits, and whether it admits a precision. -/
def admitted : Char → Option (List Char × Bool)
  | 'd' | 'i' => some (['-', '+', '0', ' '], true)
  | 'c' | 'p' => some (['-'], false)
  | 'x' | 'X' | 'o' => some (['-', '#', '0'], true)
  | 'a' | 'A' | 'f' | 'e' | 'E' | 'g' | 'G' => some (['-', '+', '#', '0', ' '], true)
  | 's' => some (['-'], true)
  | 'q' => some ([], false)
  | _ => none

def isValid (d : Directive) : Bool :=
  match admitted d.letter with
  | some (flags, precision) => d.flags.all flags.contains && (precision || d.precision.isNone)
  | none => false

end Directive

def isFlag (c : Char) : Bool :=
  ['-', '+', '#', '0', ' '].contains c

/-- At most two digits, and what follows them. -/
def readWidth (cs : List Char) : Nat × List Char :=
  let digits := (cs.take 2).takeWhile Char.isDigit
  (Decimal.ofDigits digits, cs.drop digits.length)

/-- A directive behind its mark, and what follows it. -/
def readDirective (cs : List Char) : Option (Directive × List Char) := do
  let flags := cs.takeWhile isFlag
  let (width, rest) := readWidth (cs.drop flags.length)
  let (precision, rest) := match rest with
    | '.' :: more =>
      let (n, more) := readWidth more
      (some n, more)
    | more => (none, more)
  match rest with
  | letter :: rest =>
    let d := { flags, width, precision, letter : Directive }
    guard d.isValid
    return (d, rest)
  | [] => none

/-- What stands behind a mark that begins no directive: what may come before a letter, and the letter. -/
def refused (cs : List Char) : String :=
  let options := cs.takeWhile fun c => isFlag c || c.isDigit || c = '.'
  String.ofList (cs.take (options.length + 1))

/-- Fills a text up with blanks to the width. -/
def padBytes (d : Directive) (b : Bytes) : Bytes :=
  let blanks := Bytes.ofList (List.replicate (d.width - b.size) 32)
  if d.has '-' then b ++ blanks else blanks ++ b

/-- Fills a signed number up to the width, with zeros behind the sign where asked for. -/
def pad (d : Directive) (sign body : String) (zeros : Bool) : String :=
  let missing := d.width - (sign.length + body.length)
  if d.has '-' then sign ++ body ++ String.ofList (List.replicate missing ' ')
  else if zeros && d.has '0' then sign ++ String.ofList (List.replicate missing '0') ++ body
  else String.ofList (List.replicate missing ' ') ++ sign ++ body

/-- The sign of a number that is not negative. -/
def plainSign (d : Directive) : String :=
  if d.has '+' then "+" else if d.has ' ' then " " else ""

/-- At least as many digits as the precision asks for; none for zero with precision zero. -/
def digits (d : Directive) (text : String) : String :=
  match d.precision with
  | none => text
  | some p =>
    if p = 0 && text == "0" then ""
    else String.ofList (List.replicate (p - text.length) '0') ++ text

/-- An integer in base ten. -/
def decimal (d : Directive) (n : Int64) : String :=
  let sign := if n < 0 then "-" else plainSign d
  pad d sign (digits d (toString n.toInt.natAbs)) d.precision.isNone

/-- The bits of an integer in base eight or sixteen. -/
def unsigned (d : Directive) (n : Int64) : String :=
  let bits := n.toUInt64.toNat
  if d.letter = 'o' then
    let text := digits d (String.ofList (Nat.toDigits 8 bits))
    let text := if d.has '#' && text.toList.head? != some '0' then "0" ++ text else text
    pad d "" text d.precision.isNone
  else
    let text := digits d (Notation.hexDigits bits)
    let mark := if d.has '#' && bits != 0 then "0x" else ""
    let shown := pad d mark text d.precision.isNone
    if d.letter = 'X' then shown.toUpper else shown

/-- A float in one of the notations. -/
def float (d : Directive) (x : Float) : String :=
  let upper := d.letter.isUpper
  let shown := match Binary.ofFloat? x with
    | none =>
      if x.isNaN then pad d "-" "nan" false
      else pad d (if x < 0 then "-" else plainSign d) "inf" false
    | some b =>
      let sign := if b.negative then "-" else plainSign d
      let places := d.precision.getD 6
      match d.letter.toLower with
      | 'f' => pad d sign (Notation.fixed b places (d.has '#')) true
      | 'e' => pad d sign (Notation.scientific b places (d.has '#')) true
      | 'g' => pad d sign (Notation.general b places (d.has '#')) true
      | _ =>
        let text := Notation.hexadecimal b d.precision
        pad d (sign ++ "0x") (String.ofList (text.toList.drop 2)) true
  if upper then shown.toUpper else shown

/-- A byte in quotes; a code in digits is filled up where another digit follows. -/
def quotedByte (c next : UInt8) : List UInt8 :=
  if c == 34 || c == 92 || c == 10 then [92, c]
  else if Bytes.isControl c then
    let text := toString c.toNat
    let zeros := if Bytes.isDigit next then 3 - text.length else 0
    92 :: List.replicate zeros 48 ++ text.toUTF8.toList
  else [c]

/-- A text in quotes, so that a script reads it back. -/
def quoted (b : Bytes) : Bytes :=
  let cs := b.toList
  Bytes.ofList (34 :: (cs.zip (cs.drop 1 ++ [0])).flatMap (fun (c, next) => quotedByte c next) ++ [34])

/-- A float so that a script reads it back. -/
def quotedFloat (x : Float) : String :=
  match Binary.ofFloat? x with
  | none => if x.isNaN then "(0/0)" else if x < 0 then "-1e9999" else "1e9999"
  | some b => (if b.negative then "-" else "") ++ Notation.hexadecimal b none

end Multisample.Script.Format
