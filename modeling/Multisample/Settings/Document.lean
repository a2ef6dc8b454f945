import Multisample.Numeric.Decimal
import Multisample.Text.CharClass

/-!
# Settings documents

Settings come as a tree of tables and plain values, from a file, from the
environment or from both, one laid over the other.  A setting is read leniently:
a number may be written as a text or a truth value, and a text as a number.
-/

namespace Multisample

inductive Document where
  | null
  | flag (value : Bool)
  | whole (value : Int)
  | real (value : Float)
  | text (value : String)
  | list (items : List Document)
  | table (fields : List (String × Document))
deriving Repr, Inhabited

namespace Document

def fields : Document → List (String × Document)
  | table fields => fields
  | _ => []

/-- The value of a key, nothing when there is none. -/
def get (d : Document) (key : String) : Document :=
  (d.fields.lookup key).getD null

def has (d : Document) (key : String) : Bool :=
  (d.fields.lookup key).isSome

def put (d : Document) (key : String) (value : Document) : Document :=
  table (d.fields.filter (fun f => f.1 != key) ++ [(key, value)])

/-- Puts a value at the end of a chain of keys; whatever is in the way becomes a table. -/
def insert (value : Document) : List String → Document → Document
  | [], _ => value
  | key :: rest, d => d.put key (insert value rest (d.get key))

mutual

/-- Lays a value over another: tables are merged key by key, anything else is replaced. -/
def overlay : Document → Document → Document
  | table entries, below => overlayFields entries (table below.fields)
  | value, _ => value

def overlayFields : List (String × Document) → Document → Document
  | [], d => d
  | (key, value) :: rest, d => overlayFields rest (d.put key (overlay value (d.get key)))

end

/-- Whether a number is one that a document can hold as a whole number: 64 bits with a sign. -/
def fitsWhole (n : Int) : Bool :=
  let limit : Int := (1 <<< 63 : Nat)
  n < limit && -limit ≤ n

/-- The largest number that a count may be. -/
def naturalLimit : Nat := 1 <<< 64

/-- The number that a text stands for: a truth word or unsigned digits. -/
def naturalOfText? (text : String) : Option Nat :=
  match text.toLower with
  | "true" | "on" | "yes" => some 1
  | "false" | "off" | "no" => some 0
  | _ =>
    let digits := match text.toList with
      | '+' :: rest => rest
      | cs => cs
    if digits.isEmpty || !digits.all Char.isDigit then none else some (Decimal.ofDigits digits)

/-- Reads a count below a limit; a fraction is rounded, and a negative one counts as zero. -/
def natural? (limit : Nat) (d : Document) : Option Nat := do
  let n ← match d with
    | flag value => some (if value then 1 else 0)
    | whole value => if value < 0 then none else some value.toNat
    | real value => some (if value < 0 then 0 else wholePart value.round)
    | text value => (naturalOfText? value).filter (· < naturalLimit)
    | null | list _ | table _ => none
  if n < limit then some n else none

/-- Reads a text; a plain value counts as the text it would be written with. -/
def string? : Document → Option String
  | text value => some value
  | flag value => some (if value then "true" else "false")
  | whole value => some (toString value)
  | real value => some (floatText value)
  | null | list _ | table _ => none

end Document

end Multisample
