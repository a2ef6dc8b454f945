import Multisample.Proofs.Library.Paths
import Multisample.Proofs.Numeric.Whole
import Multisample.Proofs.Script.PlainData

/-!
# What the fields of tables hold

A field is there, or it may be absent, and it holds what it must.  A look-up may
run code, so what a value stands for is found out in the world that the look-up
left.  The binder lets a field pass exactly if it holds what it must.
-/

namespace Multisample.Script

open Builtins

/-! ## What values stand for -/

namespace Value

/-- The number that a value is. -/
def rational? : Value → Option ℚ
  | .number (.int n) => some (n.toInt : ℚ)
  | .number (.float x) => (Binary.ofFloat? x).map Binary.value
  | _ => none

def IsInteger (v : Value) (n : ℤ) : Prop :=
  v.rational? = some (n : ℚ)

def IsBounded (b : Bounds) (v : Value) (n : ℤ) : Prop :=
  v.IsInteger n ∧ b.least ≤ n ∧ n ≤ b.greatest

def IsNatural (greatest : ℕ) (v : Value) (n : ℕ) : Prop :=
  v.IsInteger n ∧ n ≤ greatest

def IsBoolean (v : Value) (b : Bool) : Prop :=
  v = .bool b

def IsText (v : Value) (s : String) : Prop :=
  ∃ b, v = .text b ∧ b.toString? = some s

/-- A text that does not begin like a path out of the folder of the library. -/
structure IsPath (v : Value) (p : RelativePath) : Prop where
  text : v.IsText p.text
  notEmpty : p.text.toList ≠ []
  noSlash : ∀ rest, p.text.toList ≠ '/' :: rest ∧ p.text.toList ≠ '\\' :: rest
  noDrive : ∀ letter rest, p.text.toList = letter :: ':' :: rest → letter.isAlpha = false
  noParent : ∀ rest, p.text.toList ≠ '.' :: '.' :: rest

end Value

/-! ## What tables describe -/

namespace Surroundings

/-- What a value stands for in a world; finding out may lead to another world. -/
abbrev Meaning (α : Type) : Type := World → Value → α → World → Prop

variable {α : Type}

/-- A meaning that is found out without a look-up. -/
def Plainly (P : Value → α → Prop) : Meaning α :=
  fun w v a later => P v a ∧ w = later

/-- A table of two integers, the second one greater than the first. -/
def IsRange (start stop : Bounds) : Meaning ValueRange :=
  fun w v r later => ∃ id, v = .table id ∧ (w.heap.table id).length = 2 ∧
    ((w.heap.table id).getNat 1).IsBounded start r.start ∧
      ((w.heap.table id).getNat 2).IsBounded stop r.stop ∧ r.start < r.stop ∧ w = later

/-- Something that is there. -/
def IsSome (P : Meaning α) : Meaning (Option α) :=
  fun w v o later => ∃ a, o = some a ∧ P w v a later

def IsNested (P : World → ℕ → α → World → Prop) : Meaning α :=
  fun w v a later => ∃ id, v = .table id ∧ P w id a later

variable (around : Surroundings) (site : Site)

/-- The answer to looking a name up in a table, and the world that the look-up leaves. -/
def Answers (w : World) (table : ℕ) (name : String) (answer : Except String Value) (later : World) :
    Prop :=
  (Libraries.reader.field table name site w).finish around = (later, .gives answer)

/-- The field is there and holds what it must. -/
def Required (w : World) (table : ℕ) (name : String) (P : Meaning α) (a : α) (later : World) : Prop :=
  ∃ v found, around.Answers site w table name (.ok v) found ∧ v ≠ .nil ∧ P found v a later

/-- The field is absent, or it is there and holds what it must. -/
def Optional (w : World) (table : ℕ) (name : String) (default : α) (P : Meaning α) (a : α)
    (later : World) : Prop :=
  around.Answers site w table name (.ok .nil) later ∧ a = default ∨
    around.Required site w table name P a later

variable {around site} {w later : World} {table : ℕ} {name : String} {P : Meaning α} {a : α}
  {Q : α → Prop}

/-- What a meaning says of everything holds of what a required field holds. -/
theorem Required.holds (h : around.Required site w table name P a later)
    (hP : ∀ w v a later, P w v a later → Q a) : Q a := by
  obtain ⟨v, found, -, -, ha⟩ := h
  exact hP found v a later ha

theorem Optional.holds {default : α} (h : around.Optional site w table name default P a later)
    (hdefault : Q default) (hP : ∀ w v a later, P w v a later → Q a) : Q a := by
  rcases h with ⟨-, rfl⟩ | h
  · exact hdefault
  · exact h.holds hP

theorem IsRange.ordered {start stop : Bounds} {v : Value} {r : ValueRange}
    (h : IsRange start stop w v r later) : r.start < r.stop ∧ (r.stop : ℤ) ≤ stop.greatest := by
  obtain ⟨id, -, -, -, ⟨-, -, hhigh⟩, hlt, -⟩ := h
  exact ⟨hlt, hhigh⟩

end Surroundings

/-! ## Single values -/

namespace Binding

theorem toText_eq_ok {v : Value} {s : String} : toText v = .ok s ↔ v.IsText s := by
  cases v with
  | text b => cases h : b.toString? <;> simp [toText, violate, Value.IsText, h]
  | _ => simp [toText, violate, Value.IsText]

theorem toInteger_eq_ok {v : Value} {n : ℤ} :
    toInteger v = .ok n ↔ ∃ m : ℤ, v.IsInteger m ∧ saturated m = n := by
  cases v with
  | number x =>
      cases x with
      | int i =>
          have hlow := i.le_toInt
          have hhigh := i.toInt_lt
          have hsaturated : saturated i.toInt = i.toInt := by
            unfold saturated
            omega
          simp [toInteger, Value.IsInteger, Value.rational?, hsaturated]
      | float x =>
          cases hx : Binary.ofFloat? x with
          | none => simp [toInteger, violate, Value.IsInteger, Value.rational?, hx]
          | some b =>
              have hwhole := b.whole?_eq_some_iff
              cases hb : b.whole? with
              | none =>
                  simp only [hb, reduceCtorEq, false_iff] at hwhole
                  simp [toInteger, violate, Value.IsInteger, Value.rational?, hx, hb, hwhole]
              | some m =>
                  have hvalue := (hwhole m).mp hb
                  simp [toInteger, Value.IsInteger, Value.rational?, hx, hb, hvalue]
  | _ => simp [toInteger, violate, Value.IsInteger, Value.rational?]

/-- The bounds leave out the ends of the 64-bit integers. -/
def Narrow (b : Bounds) : Prop :=
  -9223372036854775808 < b.least ∧ b.greatest < 9223372036854775807

theorem checkBounds_eq_ok {b : Bounds} {n : ℤ} :
    checkBounds b n = .ok () ↔ b.least ≤ n ∧ n ≤ b.greatest := by
  unfold checkBounds Bounds.allow violate
  split <;> simp_all

/-- Whatever is cut off to fit into 64 bits lies out of bounds. -/
theorem bounded_eq_ok {b : Bounds} (hb : Narrow b) {v : Value} {n : ℤ} :
    toInteger v = .ok n ∧ checkBounds b n = .ok () ↔ v.IsBounded b n := by
  rw [checkBounds_eq_ok, toInteger_eq_ok, Value.IsBounded]
  constructor
  · rintro ⟨⟨m, hm, rfl⟩, hbounds⟩
    have hsaturated : saturated m = m := by
      unfold saturated at hbounds ⊢
      unfold Narrow at hb
      omega
    rw [hsaturated] at hbounds ⊢
    exact ⟨hm, hbounds⟩
  · rintro ⟨hn, hbounds⟩
    refine ⟨⟨n, hn, ?_⟩, hbounds⟩
    unfold saturated
    unfold Narrow at hb
    omega

theorem toBounded_eq_ok {b : Bounds} (hb : Narrow b) {v : Value} {n : ℤ} :
    toBounded b v = .ok n ↔ v.IsBounded b n := by
  rw [← bounded_eq_ok hb, toBounded, except_bind_eq_ok]
  constructor
  · rintro ⟨m, hm, h⟩
    obtain ⟨⟨⟩, hcheck, hn⟩ := except_bind_eq_ok.mp h
    obtain rfl := Except.ok.inj hn
    exact ⟨hm, hcheck⟩
  · rintro ⟨hn, hcheck⟩
    exact ⟨n, hn, except_bind_eq_ok.mpr ⟨(), hcheck, rfl⟩⟩

theorem toOption_eq_ok {options : List String} {v : Value} {s : String} :
    toOption options v = .ok s ↔ v.IsText s ∧ (options = [] ∨ s ∈ options) := by
  rw [toOption, except_bind_eq_ok]
  constructor
  · rintro ⟨t, ht, h⟩
    split at h
    · rename_i hallowed
      obtain rfl := Except.ok.inj h
      exact ⟨toText_eq_ok.mp ht, by simpa using hallowed⟩
    · cases h
  · rintro ⟨htext, hallowed⟩
    refine ⟨s, toText_eq_ok.mpr htext, ?_⟩
    rw [if_pos (by simpa using hallowed)]
    rfl

theorem toPath_eq_ok {v : Value} {p : RelativePath} : toPath v = .ok p ↔ v.IsPath p := by
  rw [toPath, except_bind_eq_ok]
  constructor
  · rintro ⟨s, hs, h⟩
    cases hp : RelativePath.ofString s with
    | error e =>
        rw [hp] at h
        cases h
    | ok q =>
        rw [hp] at h
        obtain rfl := Except.ok.inj h
        obtain ⟨rfl, hinside⟩ := RelativePath.ofString_eq_ok.mp hp
        exact ⟨toText_eq_ok.mp hs, mt String.toList_eq_nil_iff.mp hinside.notEmpty,
          hinside.noSlash, hinside.noDrive, hinside.noParent⟩
  · intro h
    refine ⟨p.text, toText_eq_ok.mpr h.text, ?_⟩
    have hpath : RelativePath.ofString p.text = .ok p :=
      RelativePath.ofString_eq_ok.mpr ⟨rfl, mt String.toList_eq_nil_iff.mpr h.notEmpty, h.noSlash,
        h.noDrive, h.noParent⟩
    rw [hpath]
    rfl

theorem toRange_eq_ok {start stop : Bounds} (hstart : Narrow start) (hstop : Narrow stop) {t : Table}
    {first last : ℤ} : toRange start stop t = .ok (first, last) ↔ t.length = 2 ∧
      (t.getNat 1).IsBounded start first ∧ (t.getNat 2).IsBounded stop last ∧ first < last := by
  rw [← bounded_eq_ok hstart, ← bounded_eq_ok hstop, toRange]
  by_cases hlength : t.length = 2
  · simp only [hlength, ne_eq, not_true_eq_false, if_false, true_and, except_bind_eq_ok]
    constructor
    · rintro ⟨a, ha, b, hb, ⟨⟩, hfirst, ⟨⟩, hlast, h⟩
      split at h
      · cases h
      · rename_i hlt
        obtain ⟨rfl, rfl⟩ := Prod.mk.inj (Except.ok.inj h)
        exact ⟨⟨ha, hfirst⟩, ⟨hb, hlast⟩, not_le.mp hlt⟩
    · rintro ⟨⟨ha, hfirst⟩, ⟨hb, hlast⟩, hlt⟩
      exact ⟨first, ha, last, hb, (), hfirst, (), hlast, if_neg (not_le.mpr hlt)⟩
  · simp [hlength, violate, Bind.bind, Except.bind]

/-! ## Checks in surroundings -/

open Surroundings

section checks

variable {α β : Type} (around : Surroundings) (site : Site)

/-- A check passes with a result and leaves a world. -/
def Passes (x : ExceptT Issue Act α) (w : World) (a : α) (later : World) : Prop :=
  (x.run site w).finish around = (later, .gives (.ok a))

variable {around site} {w later : World} {a : α} {b : β}

@[simp] theorem passes_pure {a' : α} :
    Passes around site (pure a) w a' later ↔ a = a' ∧ w = later := by
  constructor
  · intro h
    obtain ⟨rfl, hgives⟩ := Prod.mk.inj h
    exact ⟨Except.ok.inj (Conclusion.gives.inj hgives), rfl⟩
  · rintro ⟨rfl, rfl⟩
    rfl

@[simp] theorem passes_throw {i : Issue} :
    Passes around site (throw i) w a later ↔ False := by
  constructor
  · intro h
    exact nomatch Conclusion.gives.inj (Prod.mk.inj h).2
  · exact False.elim

@[simp] theorem passes_bind {x : ExceptT Issue Act α} {f : α → ExceptT Issue Act β} :
    Passes around site (x >>= f) w b later ↔
      ∃ a between, Passes around site x w a between ∧ Passes around site (f a) between b later := by
  have hrun : ((x >>= f).run site w).finish around =
      ((x.run site w).bind fun r w => ExceptT.bindCont f r site w).finish around := rfl
  simp only [Passes]
  rw [hrun, Step.finish_bind]
  rcases (x.run site w).finish around with ⟨between, (i | a) | e | _⟩
  · exact ⟨nofun, nofun⟩
  · constructor
    · intro h
      exact ⟨a, between, rfl, h⟩
    · rintro ⟨_, _, ⟨⟩, h⟩
      exact h
  · exact ⟨nofun, nofun⟩
  · exact ⟨nofun, nofun⟩

@[simp] theorem passes_lift_bind {r : Except Issue α} {f : α → ExceptT Issue Act β} :
    Passes around site (liftM r >>= f) w b later ↔
      ∃ a, r = .ok a ∧ Passes around site (f a) w b later := by
  cases r with
  | ok a =>
      constructor
      · intro h
        exact ⟨a, rfl, h⟩
      · rintro ⟨_, ⟨⟩, h⟩
        exact h
  | error i => exact ⟨nofun, nofun⟩

/-- What reads a table itself changes nothing. -/
@[simp] theorem passes_table_bind {id : ℕ} {g : Table → Except Issue α}
    {f : α → ExceptT Issue Act β} :
    Passes around site (ExceptT.mk (Libraries.reader.table _ id g) >>= f) w b later ↔
      ∃ a, g (w.heap.table id) = .ok a ∧ Passes around site (f a) w b later := by
  have hrun : ((ExceptT.mk (Libraries.reader.table _ id g) >>= f).run site w) =
      ExceptT.bindCont f (g (w.heap.table id)) site w := rfl
  simp only [Passes]
  rw [hrun]
  cases g (w.heap.table id) with
  | ok a =>
      constructor
      · intro h
        exact ⟨a, rfl, h⟩
      · rintro ⟨_, ⟨⟩, h⟩
        exact h
  | error i => exact ⟨nofun, nofun⟩

@[simp] theorem passes_adapt {f : Issue → Issue} {x : ExceptT Issue Act α} :
    Passes around site (ExceptT.adapt f x) w a later ↔ Passes around site x w a later := by
  have hrun : ((ExceptT.adapt f x).run site w).finish around =
      ((x.run site w).bind fun r w => .done w (r.mapError f)).finish around := rfl
  simp only [Passes]
  rw [hrun, Step.finish_bind]
  rcases (x.run site w).finish around with ⟨between, (i | a) | e | _⟩
  · simp [Step.finish, Except.mapError]
  · simp [Step.finish, Except.mapError]
  · simp
  · simp

theorem passes_field {table : ℕ} {name : String} {answer : Except String Value} :
    Passes around site (ExceptT.lift (Libraries.reader.field table name)) w answer later ↔
      around.Answers site w table name answer later := by
  have hrun : (ExceptT.lift (Libraries.reader.field table name) : ExceptT Issue Act _).run site w =
      (Libraries.reader.field table name site w).bind fun r w => .done w (.ok r) := rfl
  simp only [Passes, Answers]
  rw [hrun, Step.finish_bind]
  rcases (Libraries.reader.field table name site w).finish around with ⟨between, r | e | _⟩
  · simp [Step.finish]
  · simp
  · simp

/-! ## Kinds of fields -/

variable {limit : ℕ} {v : Value} {value : FieldValue}

theorem passes_text {options : List String} :
    Passes around site (bindKind Libraries.reader limit v (.text options)) w value later ↔
      ∃ s, (v.IsText s ∧ (options = [] ∨ s ∈ options)) ∧ .text s = value ∧ w = later := by
  simp only [bindKind, passes_lift_bind, toOption_eq_ok, passes_pure]

theorem passes_path :
    Passes around site (bindKind Libraries.reader limit v .path) w value later ↔
      ∃ p, v.IsPath p ∧ .path p = value ∧ w = later := by
  simp only [bindKind, passes_lift_bind, toPath_eq_ok, passes_pure]

theorem passes_integer {b : Bounds} (hb : Narrow b) :
    Passes around site (bindKind Libraries.reader limit v (.integer b)) w value later ↔
      ∃ n, v.IsBounded b n ∧ .integer n = value ∧ w = later := by
  simp only [bindKind, passes_lift_bind, toBounded_eq_ok hb, passes_pure]

theorem passes_boolean :
    Passes around site (bindKind Libraries.reader limit v .boolean) w value later ↔
      ∃ b, v.IsBoolean b ∧ .boolean b = value ∧ w = later := by
  cases v with
  | bool b => simp [bindKind, Value.IsBoolean]
  | _ => exact ⟨nofun, fun ⟨b, hb, _⟩ => nomatch hb⟩

theorem passes_range {start stop : Bounds} (hstart : Narrow start) (hstop : Narrow stop) :
    Passes around site (bindKind Libraries.reader limit v (.range start stop)) w value later ↔
      ∃ id, v = .table id ∧ ∃ first last, ((w.heap.table id).length = 2 ∧
        ((w.heap.table id).getNat 1).IsBounded start first ∧
          ((w.heap.table id).getNat 2).IsBounded stop last ∧ first < last) ∧
            .range first last = value ∧ w = later := by
  simp only [bindKind, passes_lift_bind, toTable_eq_ok, passes_table_bind, Prod.exists,
    toRange_eq_ok hstart hstop, passes_pure]

theorem passes_record {schema : Schema} :
    Passes around site (bindKind Libraries.reader limit v (.record schema)) w value later ↔
      ∃ id, v = .table id ∧ ∃ values,
        Passes around site (bindSchema Libraries.reader limit id schema) w values later ∧
          .record values = value := by
  simp only [bindKind, passes_lift_bind, toTable_eq_ok]
  simp only [passes_bind, passes_pure]
  constructor
  · rintro ⟨id, hid, values, _, hvalues, hvalue, rfl⟩
    exact ⟨id, hid, values, hvalues, hvalue⟩
  · rintro ⟨id, hid, values, hvalues, hvalue⟩
    exact ⟨id, hid, values, later, hvalues, hvalue, rfl⟩

/-! ## Fields -/

variable {table : ℕ} {doc : FieldDoc} {kind : FieldKind}

theorem passes_some {x : ExceptT Issue Act α} {o : Option α} :
    Passes around site (do return some (← x)) w o later ↔
      ∃ a, Passes around site x w a later ∧ some a = o := by
  simp only [passes_bind, passes_pure]
  constructor
  · rintro ⟨a, _, ha, hsome, rfl⟩
    exact ⟨a, ha, hsome⟩
  · rintro ⟨a, ha, hsome⟩
    exact ⟨a, later, ha, hsome, rfl⟩

theorem passes_bindField {o : Option FieldValue} :
    Passes around site (bindField Libraries.reader limit table (.mk doc kind)) w o later ↔
      (around.Answers site w table doc.name (.ok .nil) later ∧ doc.required = false ∧ none = o) ∨
        ∃ v found, around.Answers site w table doc.name (.ok v) found ∧ v ≠ .nil ∧
          ∃ value, Passes around site (bindKind Libraries.reader limit v kind) found value later ∧
            some value = o := by
  simp only [bindField, passes_adapt]
  rw [passes_bind]
  simp only [passes_field]
  constructor
  · rintro ⟨answer, found, hanswer, h⟩
    cases answer with
    | error message => exact (passes_throw.mp h).elim
    | ok v =>
        cases v with
        | nil =>
            cases hrequired : doc.required with
            | true =>
                simp only [hrequired] at h
                exact (passes_throw.mp h).elim
            | false =>
                simp only [hrequired] at h
                obtain ⟨hnone, rfl⟩ := passes_pure.mp h
                exact Or.inl ⟨hanswer, rfl, hnone⟩
        | _ => exact Or.inr ⟨_, found, hanswer, by simp, passes_some.mp h⟩
  · rintro (⟨hanswer, hrequired, rfl⟩ | ⟨v, found, hanswer, hne, h⟩)
    · refine ⟨.ok .nil, later, hanswer, ?_⟩
      simp only [hrequired]
      exact passes_pure.mpr ⟨rfl, rfl⟩
    · refine ⟨.ok v, found, hanswer, ?_⟩
      cases v with
      | nil => exact absurd rfl hne
      | _ => exact passes_some.mpr h

theorem passes_bindFields_nil {values : Values} :
    Passes around site (bindFields Libraries.reader limit table []) w values later ↔
      [] = values ∧ w = later := by
  simp only [bindFields, passes_pure]

theorem passes_bindFields_cons {field : FieldSpec} {rest : List FieldSpec} {values : Values} :
    Passes around site (bindFields Libraries.reader limit table (field :: rest)) w values later ↔
      ∃ o between, Passes around site (bindField Libraries.reader limit table field) w o between ∧
        ∃ more, Passes around site (bindFields Libraries.reader limit table rest) between more later ∧
          (o.map ((field.doc.name, ·))).toList ++ more = values := by
  simp only [bindFields, passes_bind, passes_pure]
  constructor
  · rintro ⟨o, between, ho, more, _, hmore, hvalues, rfl⟩
    exact ⟨o, between, ho, more, hmore, hvalues⟩
  · rintro ⟨o, between, ho, more, hmore, hvalues⟩
    exact ⟨o, between, ho, more, later, hmore, hvalues, rfl⟩

theorem passes_bindSchema {name : String} {fields : List FieldSpec} {rule : Rule}
    {values : Values} :
    Passes around site (bindSchema Libraries.reader limit table (.mk name fields rule)) w values
        later ↔
      Passes around site (bindFields Libraries.reader limit table fields) w values later ∧
        rule.check limit values = none := by
  simp only [bindSchema, passes_bind]
  constructor
  · rintro ⟨vs, between, hvs, h⟩
    cases hrule : rule.check limit vs with
    | none =>
        rw [hrule] at h
        obtain ⟨rfl, rfl⟩ := passes_pure.mp h
        exact ⟨hvs, hrule⟩
    | some issue =>
        rw [hrule] at h
        exact (passes_throw.mp h).elim
  · rintro ⟨hvalues, hrule⟩
    refine ⟨values, later, hvalues, ?_⟩
    rw [hrule]
    exact passes_pure.mpr ⟨rfl, rfl⟩

end checks

end Binding

end Multisample.Script
