import Multisample.Proofs.Script.Conclusions
import Multisample.Script.Builtins.Libraries

/-!
# What tables show

A script's table is read by looking up names, and a look-up may run code.  A
view says what the look-ups answer.  Wherever these answers are definite,
checking a table against a schema comes to the same as checking its view, and
nothing of the view matters but the fields that the schema declares.
-/

namespace Multisample.Script

open Builtins

/-- What look-ups by name answer, and what the tables themselves hold. -/
structure View where
  field : ℕ → String → Except String Value
  table : ℕ → Table

namespace View

def reader (v : View) : TableReader Id where
  field := v.field
  table _ id f := f (v.table id)

/-! ## Agreement on declared fields -/

mutual

/-- Two views agree on all that a kind of field reads of a value. -/
def AgreesOnKind (v other : View) (value : Value) : FieldKind → Prop
  | .textList => ∀ id, value = .table id → v.table id = other.table id
  | .range _ _ => ∀ id, value = .table id →
      (v.table id).length = (other.table id).length ∧
        (v.table id).getNat 1 = (other.table id).getNat 1 ∧
          (v.table id).getNat 2 = (other.table id).getNat 2
  | .record schema => ∀ id, value = .table id → AgreesOn v other id schema
  | .text _ | .path | .integer _ | .boolean => True

def AgreesOnField (v other : View) (table : ℕ) : FieldSpec → Prop
  | .mk doc kind => v.field table doc.name = other.field table doc.name ∧
      ∀ value, v.field table doc.name = .ok value → AgreesOnKind v other value kind

def AgreesOnFields (v other : View) (table : ℕ) : List FieldSpec → Prop
  | [] => True
  | field :: rest => AgreesOnField v other table field ∧ AgreesOnFields v other table rest

/-- Two views agree on the declared fields of a table, at every level. -/
def AgreesOn (v other : View) (table : ℕ) : Schema → Prop
  | .mk _ fields _ => AgreesOnFields v other table fields

end

mutual

theorem agreesOnKind_refl (v : View) (value : Value) : ∀ kind, v.AgreesOnKind v value kind
  | .textList => fun _ _ => rfl
  | .range _ _ => fun _ _ => ⟨rfl, rfl, rfl⟩
  | .record schema => fun id _ => agreesOn_refl v id schema
  | .text _ | .path | .integer _ | .boolean => trivial

theorem agreesOnField_refl (v : View) (table : ℕ) : ∀ field, v.AgreesOnField v table field
  | .mk _ kind => ⟨rfl, fun value _ => agreesOnKind_refl v value kind⟩

theorem agreesOnFields_refl (v : View) (table : ℕ) : ∀ fields, v.AgreesOnFields v table fields
  | [] => trivial
  | field :: rest => ⟨agreesOnField_refl v table field, agreesOnFields_refl v table rest⟩

theorem agreesOn_refl (v : View) (table : ℕ) : ∀ schema, v.AgreesOn v table schema
  | .mk _ fields _ => agreesOnFields_refl v table fields

end

end View

/-! ## Definite answers -/

/-- Look-ups with definite answers: the code that they run keeps something true
of the world that makes the answers stay the same. -/
structure Reading where
  around : Surroundings
  site : Site
  view : View
  /-- The tables that the answers lead to. -/
  reach : ℕ → Prop
  kept : World → Prop
  field : ∀ id, reach id → ∀ name,
    Act.Yields around site kept (Libraries.reader.field id name) (view.field id name)
  table : ∀ id, reach id → ∀ w, kept w → w.heap.table id = view.table id
  closed : ∀ id, reach id → ∀ name next, view.field id name = .ok (.table next) → reach next

theorem Binding.toTable_eq_ok {expected : String} {v : Value} {id : ℕ} :
    toTable expected v = .ok id ↔ v = .table id := by
  cases v <;> simp [toTable, violate]

namespace Reading

variable {α β : Type}

/-- A check that runs code comes to the same as one that does not. -/
def Tracks (R : Reading) (x : ExceptT Issue Act α) (y : ExceptT Issue Id α) : Prop :=
  Act.Yields R.around R.site R.kept x.run y.run

variable {R : Reading}

theorem tracks_pure (a : α) : R.Tracks (pure a) (pure a) :=
  Act.yields_pure _

theorem tracks_mk (r : Except Issue α) :
    R.Tracks (ExceptT.mk (pure r)) (ExceptT.mk (pure r)) :=
  Act.yields_pure _

theorem tracks_lift (r : Except Issue α) : R.Tracks (liftM r) (liftM r) :=
  Act.yields_pure _

theorem tracks_throw (i : Issue) : R.Tracks (throw i : ExceptT Issue Act α) (throw i) :=
  Act.yields_pure _

theorem Tracks.bind {x : ExceptT Issue Act α} {y : ExceptT Issue Id α} (h : R.Tracks x y)
    {f : α → ExceptT Issue Act β} {g : α → ExceptT Issue Id β}
    (hf : ∀ a, y.run = .ok a → R.Tracks (f a) (g a)) : R.Tracks (x >>= f) (y >>= g) := by
  have hcont : Act.Yields R.around R.site R.kept (ExceptT.bindCont f y.run)
      (ExceptT.bindCont g y.run) := by
    cases hy : (y.run : Except Issue α) with
    | ok a => exact hf a hy
    | error i => exact Act.yields_pure _
  exact Act.Yields.bind h hcont

theorem Tracks.adapt {x : ExceptT Issue Act α} {y : ExceptT Issue Id α} (h : R.Tracks x y)
    (name : String) :
    R.Tracks (ExceptT.adapt (Issue.under name) x) (ExceptT.adapt (Issue.under name) y) :=
  Act.Yields.bind h (Act.yields_pure _)

/-- The table behind a reached identity, read as the view shows it. -/
theorem tracks_table {id : ℕ} (hid : R.reach id) {other : View} {f : Table → Except Issue α}
    (h : f (R.view.table id) = f (other.table id)) :
    R.Tracks (ExceptT.mk (Libraries.reader.table _ id f))
      (ExceptT.mk (other.reader.table _ id f)) :=
  Act.yields_ask fun w hw => by
    rw [R.table id hid w hw]
    exact h

open Binding

mutual

/-- A value is checked alike by the code that reads it and by any view that
agrees on what is read. -/
theorem tracks_bindKind {other : View} (limit : ℕ) {v : Value} (hv : ∀ id, v = .table id → R.reach id) :
    ∀ {kind : FieldKind}, R.view.AgreesOnKind other v kind →
      R.Tracks (bindKind Libraries.reader limit v kind) (bindKind other.reader limit v kind)
  | .text options, _ => (tracks_lift _).bind fun _ _ => tracks_pure _
  | .path, _ => (tracks_lift _).bind fun _ _ => tracks_pure _
  | .integer bounds, _ => (tracks_lift _).bind fun _ _ => tracks_pure _
  | .boolean, _ => by
      cases v with
      | bool b => exact tracks_pure _
      | _ => exact tracks_mk _
  | .textList, h => by
      refine (tracks_lift _).bind fun id hid => ?_
      have hvalue := toTable_eq_ok.mp hid
      exact (tracks_table (hv id hvalue) (by rw [h id hvalue])).bind fun _ _ => tracks_pure _
  | .range start stop, h => by
      refine (tracks_lift _).bind fun id hid => ?_
      have hvalue := toTable_eq_ok.mp hid
      obtain ⟨hlength, hfirst, hlast⟩ := h id hvalue
      refine (tracks_table (hv id hvalue) ?_).bind fun _ _ => tracks_pure _
      rw [toRange, toRange, hlength, hfirst, hlast]
  | .record schema, h => by
      refine (tracks_lift _).bind fun id hid => ?_
      have hvalue := toTable_eq_ok.mp hid
      exact (tracks_bindSchema limit (hv id hvalue) (h id hvalue)).bind fun _ _ => tracks_pure _

theorem tracks_bindField {other : View} (limit : ℕ) {table : ℕ} (ht : R.reach table) :
    ∀ {field : FieldSpec}, R.view.AgreesOnField other table field →
      R.Tracks (bindField Libraries.reader limit table field)
        (bindField other.reader limit table field)
  | .mk doc kind, ⟨hanswer, hkind⟩ => by
      refine Tracks.adapt ?_ doc.name
      have hlookup : R.Tracks (ExceptT.lift (Libraries.reader.field table doc.name))
          (ExceptT.lift (other.reader.field table doc.name)) := by
        have hfield := R.field table ht doc.name
        rw [hanswer] at hfield
        exact hfield.bind (Act.yields_pure _)
      refine hlookup.bind fun answer hok => ?_
      have hview : R.view.field table doc.name = answer := by
        rw [hanswer]
        exact Except.ok.inj hok
      cases answer with
      | error message => exact tracks_throw _
      | ok v =>
          have hnested : R.Tracks (bindKind Libraries.reader limit v kind)
              (bindKind other.reader limit v kind) := by
            refine tracks_bindKind limit ?_ (hkind v hview)
            rintro id rfl
            exact R.closed table ht doc.name id hview
          cases v with
          | nil =>
              dsimp only
              split
              · exact tracks_throw _
              · exact tracks_pure _
          | _ => exact hnested.bind fun _ _ => tracks_pure _

theorem tracks_bindFields {other : View} (limit : ℕ) {table : ℕ} (ht : R.reach table) :
    ∀ {fields : List FieldSpec}, R.view.AgreesOnFields other table fields →
      R.Tracks (bindFields Libraries.reader limit table fields)
        (bindFields other.reader limit table fields)
  | [], _ => tracks_pure _
  | _ :: _, ⟨hfield, hrest⟩ =>
      (tracks_bindField limit ht hfield).bind fun _ _ =>
        (tracks_bindFields limit ht hrest).bind fun _ _ => tracks_pure _

theorem tracks_bindSchema {other : View} (limit : ℕ) {table : ℕ} (ht : R.reach table) :
    ∀ {schema : Schema}, R.view.AgreesOn other table schema →
      R.Tracks (bindSchema Libraries.reader limit table schema)
        (bindSchema other.reader limit table schema)
  | .mk _ fields rule, h => by
      refine (tracks_bindFields limit ht h).bind fun values _ => ?_
      cases rule.check limit values with
      | none => exact tracks_pure _
      | some issue => exact tracks_throw _

end

theorem bind_view (view : View) (limit table : ℕ) (schema : Schema) :
    Binding.bind view.reader limit table schema =
      match (bindSchema view.reader limit table schema).run with
      | .ok values => .ok values
      | .error issue => .error ⟨schema.name, issue⟩ := rfl

/-- Binding a table gives what binding a view gives that agrees on the declared
fields. -/
theorem yields_bind (R : Reading) {other : View} (limit : ℕ) {table : ℕ} (ht : R.reach table)
    {schema : Schema} (h : R.view.AgreesOn other table schema) :
    Act.Yields R.around R.site R.kept (Binding.bind Libraries.reader limit table schema)
      (Binding.bind other.reader limit table schema) := by
  refine Act.Yields.bind (tracks_bindSchema limit ht h) ?_
  rw [bind_view]
  cases (bindSchema other.reader limit table schema).run with
  | ok values => exact Act.yields_pure _
  | error issue => exact Act.yields_pure _

end Reading

end Multisample.Script
