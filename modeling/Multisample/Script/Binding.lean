import Multisample.Script.Heap
import Multisample.Script.Schema

/-!
# Binding tables to schemas

A table is checked against a schema field by field, depth first in the order of
the schema, and a record's own rule last.  The first violation ends it.  How
fields are looked up is left open: plainly, following tables of fallbacks, or by
running the code of metatables.
-/

namespace Multisample.Script

/-- How tables are read; a look-up by name may run code and fail. -/
structure TableReader (m : Type → Type) where
  field : Nat → String → m (Except String Value)
  /-- A fact about a table itself. -/
  table : (α : Type) → Nat → (Table → α) → m α

namespace Binding

variable {m : Type → Type} [Monad m]

def violate {α : Type} (v : Violation) : Except Issue α :=
  .error ⟨[], v⟩

def toText (v : Value) : Except Issue String :=
  match v with
  | .text b =>
    match b.toString? with
    | some s => .ok s
    | none => violate .malformedText
  | v => violate (.wrongType "string" v.kindName)

/-- The 64-bit integer nearest to a number. -/
def saturated (n : Int) : Int :=
  max (-9223372036854775808) (min n 9223372036854775807)

/-- An integer, or a float without fraction. -/
def toInteger (v : Value) : Except Issue Int :=
  match v with
  | .number (.int n) => .ok n.toInt
  | .number (.float x) =>
    match (Binary.ofFloat? x).bind Binary.whole? with
    | some n => .ok (saturated n)
    | none => violate (.notIntegral (floatText x))
  | v => violate (.wrongType "integer" v.kindName)

def checkBounds (b : Bounds) (n : Int) : Except Issue Unit :=
  if b.allow n then .ok () else violate (.outOfRange n b)

def toBounded (b : Bounds) (v : Value) : Except Issue Int := do
  let n ← toInteger v
  checkBounds b n
  return n

def toOption (options : List String) (v : Value) : Except Issue String := do
  let s ← toText v
  if options.isEmpty || options.contains s then return s else violate (.noOption s options)

def toPath (v : Value) : Except Issue RelativePath := do
  match RelativePath.ofString (← toText v) with
  | .ok p => return p
  | .error e => violate (.badPath e)

def toRange (start stop : Bounds) (t : Table) : Except Issue (Int × Int) := do
  if t.length ≠ 2 then violate (.wrongSize t.length)
  let first ← toInteger (t.getNat 1)
  let last ← toInteger (t.getNat 2)
  checkBounds start first
  checkBounds stop last
  if last ≤ first then violate (.emptyRange first last) else return (first, last)

/-- The values from position `i` on up to the first gap. -/
def sequence (t : Table) : Nat → Nat → List Value
  | 0, _ => []
  | fuel + 1, i =>
    match t.getNat i with
    | .nil => []
    | v => v :: sequence t fuel (i + 1)

def toTexts (t : Table) : Except Issue (List String) :=
  (sequence t t.entries.size 1).mapM toText

/-- A table, by its identity. -/
def toTable (expected : String) (v : Value) : Except Issue Nat :=
  match v with
  | .table id => .ok id
  | v => violate (.wrongType expected v.kindName)

mutual

/-- Checks a value against a kind of field. -/
def bindKind (reader : TableReader m) (limit : Nat) (v : Value) : FieldKind → ExceptT Issue m FieldValue
  | .text options => return .text (← toOption options v)
  | .path => return .path (← toPath v)
  | .integer bounds => return .integer (← toBounded bounds v)
  | .boolean =>
    match v with
    | .bool b => return .boolean b
    | v => ExceptT.mk (pure (violate (.wrongType "boolean" v.kindName)))
  | .textList => do
    let id ← toTable "array of strings" v
    return .textList (← ExceptT.mk (reader.table _ id toTexts))
  | .range start stop => do
    let id ← toTable "array of 2 integers" v
    let (first, last) ← ExceptT.mk (reader.table _ id (toRange start stop))
    return .range first last
  | .record schema => do
    let id ← toTable "table" v
    return .record (← bindSchema reader limit id schema)

/-- Checks one field of a table; nothing is there for an optional field that is missing. -/
def bindField (reader : TableReader m) (limit : Nat) (table : Nat) :
    FieldSpec → ExceptT Issue m (Option FieldValue)
  | .mk doc kind =>
    ExceptT.adapt (Issue.under doc.name) do
      match ← ExceptT.lift (reader.field table doc.name) with
      | .error message => throw ⟨[], .raised message⟩
      | .ok .nil => if doc.required then throw ⟨[], .missing⟩ else return none
      | .ok v => return some (← bindKind reader limit v kind)

def bindFields (reader : TableReader m) (limit : Nat) (table : Nat) :
    List FieldSpec → ExceptT Issue m Values
  | [] => return []
  | field :: rest => do
    let v ← bindField reader limit table field
    let vs ← bindFields reader limit table rest
    return (v.map ((field.doc.name, ·))).toList ++ vs

/-- Checks a table against a schema: all fields in order, then the rule. -/
def bindSchema (reader : TableReader m) (limit : Nat) (table : Nat) :
    Schema → ExceptT Issue m Values
  | .mk _ fields rule => do
    let values ← bindFields reader limit table fields
    match rule.check limit values with
    | some issue => throw issue
    | none => return values

end

/-- Checks a table against a schema; the error names the schema. -/
def bind (reader : TableReader m) (limit : Nat) (table : Nat) (schema : Schema) :
    m (Except BindError Values) := do
  match ← (bindSchema reader limit table schema).run with
  | .ok values => return .ok values
  | .error issue => return .error ⟨schema.name, issue⟩

end Binding

/-! ## Tables without code -/

/-- Looks a field up in a table and then in the tables it falls back on. -/
def Heap.lookup (h : Heap) : Nat → Nat → Value → Value
  | 0, _, _ => .nil
  | fuel + 1, id, k =>
    match h.get id k with
    | .nil =>
      match (h.table id).metatable.map (h.getString · "__index") with
      | some (.table next) => lookup h fuel next k
      | _ => .nil
    | v => v

/-- Reads tables whose metatables hold no code. -/
def Heap.reader (h : Heap) : TableReader Id where
  field id name := .ok (h.lookup h.tables.size id (.ofString name))
  table _ id f := f (h.table id)

end Multisample.Script
