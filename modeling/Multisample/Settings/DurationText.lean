import Multisample.Numeric.Decimal
import Multisample.Numeric.Duration
import Multisample.Text.CharClass

/-!
# Duration texts

A duration is written as numbers with units, one after the other, and means
their sum.  Blanks say nothing.
-/

namespace Multisample.DurationText

/-- Why a text is no duration. -/
inductive Problem where
  | emptyNumber
  | badDigit
  | numberTooLarge
  | badUnit
  | tooLong
deriving DecidableEq, Repr

def Problem.message : Problem → String
  | emptyNumber => "cannot parse integer from empty string"
  | badDigit => "invalid digit found in string"
  | numberTooLarge => "number too large to fit in target type"
  | badUnit =>
    "missing time duration format, must be multiples of \x60[0-9]+(ns|us|ms|[smhdwy])\x60"
  | tooLong => "number is too large to fit in target type"

/-- A number and its unit as they are written. -/
structure Group where
  number : List Char
  unit : List Char
deriving DecidableEq, Repr

/-- The groups of a text without blanks: a number begins where a numeral follows a unit. -/
def groups : List Char → List Group
  | [] => [⟨[], []⟩]
  | c :: rest =>
    match groups rest with
    | [] => [⟨[c], []⟩]
    | g :: more =>
      if Text.isNumeral c then ⟨c :: g.number, g.unit⟩ :: more
      else if g.number.isEmpty then ⟨[], c :: g.unit⟩ :: more
      else ⟨[], [c]⟩ :: g :: more

/-- One more than the largest number of seconds, and than any number in a text. -/
def limit : Nat := 1 <<< 64

/-- The nanoseconds of a unit. -/
def unitLength? (unit : String) : Option Nat :=
  match unit with
  | "ns" => some 1
  | "us" => some 1000
  | "ms" => some 1000000
  | "s" => some Duration.perSecond
  | "m" => some (60 * Duration.perSecond)
  | "h" => some (3600 * Duration.perSecond)
  | "d" => some (86400 * Duration.perSecond)
  | "w" => some (604800 * Duration.perSecond)
  | "y" => some (31556926 * Duration.perSecond)
  | _ => none

def number (digits : List Char) : Except Problem Nat :=
  if digits.isEmpty then .error .emptyNumber
  else if !digits.all Char.isDigit then .error .badDigit
  else
    let n := Decimal.ofDigits digits
    if n < limit then .ok n else .error .numberTooLarge

/-- A duration whose seconds fit into a word. -/
def fitting (nanoseconds : Nat) : Except Problem Duration :=
  if nanoseconds < limit * Duration.perSecond then .ok ⟨nanoseconds⟩ else .error .tooLong

def groupLength (g : Group) : Except Problem Duration := do
  let n ← number g.number
  match unitLength? (String.ofList g.unit) with
  | none => throw .badUnit
  | some length => fitting (n * length)

/-- Adds up groups from left to right; the first fault counts. -/
def total : Duration → List Group → Except Problem Duration
  | sum, [] => .ok sum
  | sum, g :: rest => do
    let length ← groupLength g
    total (← fitting (sum.nanoseconds + length.nanoseconds)) rest

def read (text : String) : Except Problem Duration :=
  total ⟨0⟩ (groups (text.toList.filter fun c => !Text.isSpace c))

/-- Writes the whole milliseconds of a duration. -/
def ofMillis (d : Duration) : String :=
  s!"{d.millis}ms"

end Multisample.DurationText
