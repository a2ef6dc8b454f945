import Multisample.Library.RelativePath

/-!
# Schemas of records

A script describes libraries by tables.  A schema lists the fields of such a
table in order, each with the type and the bounds that it must keep, and a rule
over all fields.  The same schema checks tables and documents them.
-/

namespace Multisample.Script

/-- The least and the greatest value allowed. -/
structure Bounds where
  least : Int
  greatest : Int
deriving DecidableEq, Repr, Inhabited

def Bounds.allow (b : Bounds) (value : Int) : Bool :=
  b.least ≤ value && value ≤ b.greatest

/-- What has to hold between the fields of a record. -/
inductive Rule where
  | none
  /-- The name is not empty and not too long. -/
  | named
  /-- As for names, and the author is not empty. -/
  | authored
  /-- A loop whose ends count from the same side ends behind its start. -/
  | loopOrder
deriving DecidableEq, Repr, Inhabited

/-- What the documentation says about a field. -/
structure FieldDoc where
  name : String
  description : String
  required : Bool := false
  /-- What holds without the field; empty if there is nothing to say. -/
  default : String := ""
  /-- A value as a script writes it. -/
  literal : String := ""
deriving DecidableEq, Repr, Inhabited

mutual

/-- What a field must hold. -/
inductive FieldKind where
  /-- A text; if there are options, one of them. -/
  | text (options : List String)
  /-- A text that is a relative path. -/
  | path
  | integer (bounds : Bounds)
  | boolean
  | textList
  /-- A start and an end behind it. -/
  | range (start stop : Bounds)
  | record (schema : Schema)

inductive FieldSpec where
  | mk (doc : FieldDoc) (kind : FieldKind)

inductive Schema where
  | mk (name : String) (fields : List FieldSpec) (rule : Rule)

end

namespace FieldKind

/-- How messages and documentation call a kind. -/
def typeText : FieldKind → String
  | text _ | path => "string"
  | integer _ => "integer"
  | boolean => "boolean"
  | textList => "array of strings"
  | range .. => "array of 2 integers"
  | record _ => "table"

end FieldKind

namespace FieldSpec

def doc : FieldSpec → FieldDoc
  | mk doc _ => doc

def kind : FieldSpec → FieldKind
  | mk _ kind => kind

end FieldSpec

namespace Schema

def name : Schema → String
  | mk name _ _ => name

def fields : Schema → List FieldSpec
  | mk _ fields _ => fields

def rule : Schema → Rule
  | mk _ _ rule => rule

end Schema

/-! ## Checked values -/

/-- The value of a field that has been checked. -/
inductive FieldValue where
  | text (s : String)
  | path (p : RelativePath)
  | integer (n : Int)
  | boolean (b : Bool)
  | textList (texts : List String)
  | range (start stop : Int)
  | record (values : List (String × FieldValue))
deriving Inhabited

/-- The fields of a record that are there, in the order of the schema. -/
abbrev Values := List (String × FieldValue)

namespace Values

def text? (vs : Values) (name : String) : Option String :=
  match vs.lookup name with
  | some (.text s) => some s
  | _ => none

def path? (vs : Values) (name : String) : Option RelativePath :=
  match vs.lookup name with
  | some (.path p) => some p
  | _ => none

def integer? (vs : Values) (name : String) : Option Int :=
  match vs.lookup name with
  | some (.integer n) => some n
  | _ => none

def boolean? (vs : Values) (name : String) : Option Bool :=
  match vs.lookup name with
  | some (.boolean b) => some b
  | _ => none

def textList? (vs : Values) (name : String) : Option (List String) :=
  match vs.lookup name with
  | some (.textList texts) => some texts
  | _ => none

def range? (vs : Values) (name : String) : Option (Int × Int) :=
  match vs.lookup name with
  | some (.range start stop) => some (start, stop)
  | _ => none

def record? (vs : Values) (name : String) : Option Values :=
  match vs.lookup name with
  | some (.record values) => some values
  | _ => none

end Values

/-! ## Violations -/

/-- Why a field does not hold what it must. -/
inductive Violation where
  | missing
  | wrongType (expected got : String)
  /-- A number with a fraction, or none at all. -/
  | notIntegral (shown : String)
  | outOfRange (value : Int) (bounds : Bounds)
  | malformedText
  | noOption (value : String) (options : List String)
  | badPath (e : PathError)
  | wrongSize (size : Nat)
  | emptyRange (start stop : Int)
  | emptyText
  | longName (name : String) (limit : Nat)
  | loopOrder (start stop : Int)
  /-- Looking the field up ran code that failed. -/
  | raised (message : String)
deriving DecidableEq, Repr

namespace Violation

def options (texts : List String) : String :=
  ", ".intercalate (texts.map fun s => s!"\"{s}\"")

def message : Violation → String
  | missing => "missing field"
  | wrongType expected got => s!"expected {expected}, got {got}"
  | notIntegral shown => s!"expected integer, got non-integral number {shown}"
  | outOfRange value bounds =>
    s!"value {value} is out of range [{bounds.least}, {bounds.greatest}]"
  | malformedText => "string is not valid UTF-8"
  | noOption value texts => s!"invalid value \"{value}\"; valid options are {options texts}"
  | badPath e => e.message
  | wrongSize size => s!"expected array of 2 integers, got {size} elements"
  | emptyRange start stop => s!"end {stop} must be greater than start {start}"
  | emptyText => "must not be empty"
  | longName name limit =>
    s!"\"{name}\" is {name.utf8ByteSize} bytes long; the maximum is {limit}"
  | loopOrder start stop => s!"end_frame {stop} must be greater than start_frame {start}"
  | raised message => message

end Violation

/-- A violation and the way to its field through nested records. -/
structure Issue where
  path : List String
  violation : Violation
deriving DecidableEq, Repr

namespace Issue

def field (i : Issue) : String :=
  ".".intercalate i.path

/-- The issue as seen from the record around. -/
def under (name : String) (i : Issue) : Issue :=
  { i with path := name :: i.path }

end Issue

/-- An issue of a record and the record's name. -/
structure BindError where
  record : String
  issue : Issue
deriving DecidableEq, Repr

def BindError.message (e : BindError) : String :=
  s!"{e.record}.{e.issue.field}: {e.issue.violation.message}"

namespace Rule

def checkName (limit : Nat) (vs : Values) : Option Issue :=
  match vs.text? "name" with
  | some name =>
    if name == "" then some ⟨["name"], .emptyText⟩
    else if limit < name.utf8ByteSize then some ⟨["name"], .longName name limit⟩
    else Option.none
  | Option.none => Option.none

/-- The first violation of a rule by fields that are right each on its own. -/
def check (limit : Nat) (vs : Values) : Rule → Option Issue
  | none => Option.none
  | named => checkName limit vs
  | authored =>
    (checkName limit vs).or
      (if vs.text? "author" == some "" then some ⟨["author"], .emptyText⟩ else Option.none)
  | loopOrder =>
    match vs.integer? "start_frame", vs.integer? "end_frame" with
    | some start, some stop =>
      if decide (0 ≤ start) == decide (0 ≤ stop) && stop ≤ start then
        some ⟨["end_frame"], .loopOrder start stop⟩
      else Option.none
    | _, _ => Option.none

end Rule

end Multisample.Script
