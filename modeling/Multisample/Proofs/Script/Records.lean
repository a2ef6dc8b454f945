import Multisample.Proofs.Script.Fields

/-!
# What records store

The values of the fields that passed are stored by name, and a record is made of
them.  A field stores what it holds, or nothing if it is absent; fields in a row do
not get in each other's way as long as their names differ.  So whether a table is
bound, and to what, is said by what its fields hold.
-/

namespace Multisample.Script

open Builtins

/-! ## Values by name -/

namespace FieldValue

def text? : FieldValue → Option String
  | .text s => some s
  | _ => none

def path? : FieldValue → Option RelativePath
  | .path p => some p
  | _ => none

def integer? : FieldValue → Option ℤ
  | .integer n => some n
  | _ => none

def boolean? : FieldValue → Option Bool
  | .boolean b => some b
  | _ => none

def range? : FieldValue → Option (ℤ × ℤ)
  | .range start stop => some (start, stop)
  | _ => none

def record? : FieldValue → Option Values
  | .record values => some values
  | _ => none

end FieldValue

namespace Values

variable (values more : Values) (name : String)

theorem text?_eq : values.text? name = (values.lookup name).bind FieldValue.text? := by
  unfold text?
  rcases values.lookup name with _ | ⟨_ | _⟩ <;> rfl

theorem path?_eq : values.path? name = (values.lookup name).bind FieldValue.path? := by
  unfold path?
  rcases values.lookup name with _ | ⟨_ | _⟩ <;> rfl

theorem integer?_eq : values.integer? name = (values.lookup name).bind FieldValue.integer? := by
  unfold integer?
  rcases values.lookup name with _ | ⟨_ | _⟩ <;> rfl

theorem boolean?_eq : values.boolean? name = (values.lookup name).bind FieldValue.boolean? := by
  unfold boolean?
  rcases values.lookup name with _ | ⟨_ | _⟩ <;> rfl

theorem range?_eq : values.range? name = (values.lookup name).bind FieldValue.range? := by
  unfold range?
  rcases values.lookup name with _ | ⟨_ | _⟩ <;> rfl

theorem record?_eq : values.record? name = (values.lookup name).bind FieldValue.record? := by
  unfold record?
  rcases values.lookup name with _ | ⟨_ | _⟩ <;> rfl

theorem natural_eq (bits : ℕ) : values.natural bits name =
    (values.lookup name).bind fun value => value.integer?.map (lowBits bits) := by
  rw [natural, integer?_eq, Option.map_bind]
  rfl

theorem valueRange_eq : values.valueRange name =
    (values.lookup name).bind fun value => value.range?.map fun (first, last) =>
      (⟨lowBits 8 first, lowBits 8 last⟩ : ValueRange) := by
  rw [valueRange, range?_eq, Option.map_bind]
  rfl

theorem record?_map {α : Type} (make : Values → α) : (values.record? name).map make =
    (values.lookup name).bind fun value => value.record?.map make := by
  rw [record?_eq, Option.map_bind]
  rfl

theorem lookup_field (first : String) (o : Option FieldValue) :
    ((o.map ((first, ·))).toList ++ more).lookup name =
      if name = first then o.or (more.lookup name) else more.lookup name := by
  cases o with
  | none => simp
  | some value =>
      by_cases h : name = first
      · simp [h]
      · have hbeq : (name == first) = false := beq_false_of_ne h
        simp [h, List.lookup_cons, hbeq]

theorem lookup_lastField (first : String) (o : Option FieldValue) :
    ((o.map ((first, ·))).toList : Values).lookup name = if name = first then o else none := by
  have h := lookup_field [] name first o
  simpa using h

end Values

namespace Binding

open Surroundings

section records

variable {α β : Type} (around : Surroundings) (site : Site) (limit : ℕ)

/-- What passes as a kind of field is read by `get` as what it stands for. -/
structure Decodes (kind : FieldKind) (get : FieldValue → Option α) (P : Meaning α) : Prop where
  iff : ∀ w v a later, P w v a later ↔ ∃ value,
    Passes around site (bindKind Libraries.reader limit v kind) w value later ∧ get value = some a
  total : ∀ w v value later,
    Passes around site (bindKind Libraries.reader limit v kind) w value later → ∃ a, get value = some a

variable {around site limit} {kind : FieldKind} {get : FieldValue → Option α} {P Q : Meaning α}

theorem Decodes.congr (h : Decodes around site limit kind get P)
    (hPQ : ∀ w v a later, P w v a later ↔ Q w v a later) : Decodes around site limit kind get Q :=
  ⟨fun w v a later => (hPQ w v a later).symm.trans (h.iff w v a later), h.total⟩

theorem Decodes.map (h : Decodes around site limit kind get P) (f : α → β) :
    Decodes around site limit kind (fun value => (get value).map f)
      fun w v b later => ∃ a, P w v a later ∧ f a = b where
  iff w v b later := by
    constructor
    · rintro ⟨a, ha, rfl⟩
      obtain ⟨value, hvalue, hget⟩ := (h.iff w v a later).mp ha
      exact ⟨value, hvalue, by rw [hget]; rfl⟩
    · rintro ⟨value, hvalue, hget⟩
      obtain ⟨a, ha, rfl⟩ := Option.map_eq_some_iff.mp hget
      exact ⟨a, (h.iff w v a later).mpr ⟨value, hvalue, ha⟩, rfl⟩
  total w v value later hvalue := by
    obtain ⟨a, ha⟩ := h.total w v value later hvalue
    exact ⟨f a, by rw [ha]; rfl⟩

variable {w later : World} {table : ℕ} {doc : FieldDoc} {name : String} {o : Option FieldValue}

/-- A required field stores what its value stands for. -/
theorem required_iff (h : Decodes around site limit kind get P) (hname : doc.name = name)
    (hrequired : doc.required = true) {a : α} :
    around.Required site w table name P a later ↔
      ∃ o, Passes around site (bindField Libraries.reader limit table (.mk doc kind)) w o later ∧
        o.bind get = some a := by
  subst hname
  constructor
  · rintro ⟨v, found, hanswer, hne, ha⟩
    obtain ⟨value, hvalue, hget⟩ := (h.iff _ v a _).mp ha
    exact ⟨some value, passes_bindField.mpr (Or.inr ⟨v, found, hanswer, hne, value, hvalue, rfl⟩),
      hget⟩
  · rintro ⟨o, ho, hget⟩
    rcases passes_bindField.mp ho with ⟨-, hoptional, -⟩ | ⟨v, found, hanswer, hne, value, hvalue, rfl⟩
    · exact absurd (hrequired.symm.trans hoptional) (by decide)
    · exact ⟨v, found, hanswer, hne, (h.iff _ v a _).mpr ⟨value, hvalue, hget⟩⟩

theorem required_total (h : Decodes around site limit kind get P) (hrequired : doc.required = true)
    (ho : Passes around site (bindField Libraries.reader limit table (.mk doc kind)) w o later) :
    ∃ a, o.bind get = some a := by
  rcases passes_bindField.mp ho with ⟨-, hoptional, -⟩ | ⟨v, found, -, -, value, hvalue, rfl⟩
  · exact absurd (hrequired.symm.trans hoptional) (by decide)
  · exact h.total _ v value _ hvalue

/-- An optional field stores what its value stands for, or a default. -/
theorem optional_iff (h : Decodes around site limit kind get P) (hname : doc.name = name)
    (hrequired : doc.required = false) {default a : α} :
    around.Optional site w table name default P a later ↔
      ∃ o, Passes around site (bindField Libraries.reader limit table (.mk doc kind)) w o later ∧
        (o.bind get).getD default = a := by
  subst hname
  constructor
  · rintro (⟨hanswer, rfl⟩ | ⟨v, found, hanswer, hne, ha⟩)
    · exact ⟨none, passes_bindField.mpr (Or.inl ⟨hanswer, hrequired, rfl⟩), rfl⟩
    · obtain ⟨value, hvalue, hget⟩ := (h.iff _ v a _).mp ha
      exact ⟨some value, passes_bindField.mpr (Or.inr ⟨v, found, hanswer, hne, value, hvalue, rfl⟩),
        congrArg (·.getD default) hget⟩
  · rintro ⟨o, ho, rfl⟩
    rcases passes_bindField.mp ho with ⟨hanswer, -, rfl⟩ | ⟨v, found, hanswer, hne, value, hvalue, rfl⟩
    · exact Or.inl ⟨hanswer, rfl⟩
    · obtain ⟨a, ha⟩ := h.total _ v value _ hvalue
      have hstored : ((some value).bind get).getD default = a := congrArg (·.getD default) ha
      rw [hstored]
      exact Or.inr ⟨v, found, hanswer, hne, (h.iff _ v a _).mpr ⟨value, hvalue, ha⟩⟩

/-- An optional field without a default of its own. -/
theorem optional_some_iff (h : Decodes around site limit kind get P) (hname : doc.name = name)
    (hrequired : doc.required = false) {a : Option α} :
    around.Optional site w table name none (IsSome P) a later ↔
      ∃ o, Passes around site (bindField Libraries.reader limit table (.mk doc kind)) w o later ∧
        o.bind get = a := by
  have hsome : Decodes around site limit kind (fun value => (get value).map some) (IsSome P) :=
    (h.map some).congr fun w v o later => by
      simp only [IsSome, and_comm, eq_comm]
  rw [optional_iff hsome hname hrequired]
  refine exists_congr fun o => and_congr_right fun _ => ?_
  cases o with
  | none => rfl
  | some value => cases hvalue : get value <;> simp [hvalue]

/-! ## Fields in a row -/

variable (around site limit) in
/-- What is stored for a field is read as what the field holds. -/
structure Stores (name : String) (field : FieldSpec) (read : Option FieldValue → Option α)
    (P : World → ℕ → α → World → Prop) : Prop where
  name_eq : field.doc.name = name
  iff : ∀ w table a later, P w table a later ↔ ∃ o,
    Passes around site (bindField Libraries.reader limit table field) w o later ∧ read o = some a
  total : ∀ w table o later,
    Passes around site (bindField Libraries.reader limit table field) w o later → ∃ a, read o = some a

variable (around site limit) in
/-- The same of fields in a row; what is stored under other names does not matter. -/
structure StoresAll (names : List String) (fields : List FieldSpec) (read : Values → Option α)
    (P : World → ℕ → α → World → Prop) : Prop where
  names_eq : fields.map (·.doc.name) = names
  iff : ∀ w table a later, P w table a later ↔ ∃ values,
    Passes around site (bindFields Libraries.reader limit table fields) w values later ∧
      read values = some a
  total : ∀ w table values later,
    Passes around site (bindFields Libraries.reader limit table fields) w values later →
      ∃ a, read values = some a
  others : ∀ other, other ∉ names → ∀ (o : Option FieldValue) more,
    read ((o.map ((other, ·))).toList ++ more) = read more

/-- Nothing is stored under the names of other fields. -/
theorem lookup_eq_none {fields : List FieldSpec} {values : Values}
    (h : Passes around site (bindFields Libraries.reader limit table fields) w values later)
    (hname : name ∉ fields.map (·.doc.name)) : values.lookup name = none := by
  induction fields generalizing w values with
  | nil =>
      obtain ⟨rfl, -⟩ := passes_bindFields_nil.mp h
      rfl
  | cons field rest ih =>
      obtain ⟨o, between, -, more, hmore, rfl⟩ := passes_bindFields_cons.mp h
      rw [List.map_cons, List.mem_cons, not_or] at hname
      rw [Values.lookup_field, if_neg hname.1]
      exact ih hmore hname.2

theorem pair_eq_some {x : Option α} {y : Option β} {a : α} {b : β} :
    (x.bind fun a => y.map ((a, ·))) = some (a, b) ↔ x = some a ∧ y = some b := by
  cases x <;> simp [and_comm]

section stores

variable {get : FieldValue → Option α} {meaning : Meaning α}

theorem Decodes.required (h : Decodes around site limit kind get meaning) (hname : doc.name = name)
    (hrequired : doc.required = true) : Stores around site limit name (.mk doc kind) (·.bind get)
      fun w table a later => around.Required site w table name meaning a later where
  name_eq := hname
  iff _ _ _ _ := required_iff h hname hrequired
  total _ _ _ _ ho := required_total h hrequired ho

theorem Decodes.optional (h : Decodes around site limit kind get meaning) (hname : doc.name = name)
    (hrequired : doc.required = false) (default : α) :
    Stores around site limit name (.mk doc kind) (fun o => some ((o.bind get).getD default))
      fun w table a later => around.Optional site w table name default meaning a later where
  name_eq := hname
  iff w table a later := by
    simp only [optional_iff h hname hrequired, Option.some.injEq]
  total _ _ _ _ _ := ⟨_, rfl⟩

theorem Decodes.optionalSome (h : Decodes around site limit kind get meaning)
    (hname : doc.name = name) (hrequired : doc.required = false) :
    Stores around site limit name (.mk doc kind) (fun o => some (o.bind get))
      fun w table a later => around.Optional site w table name none (IsSome meaning) a later where
  name_eq := hname
  iff w table a later := by
    simp only [optional_some_iff h hname hrequired, Option.some.injEq]
  total _ _ _ _ _ := ⟨_, rfl⟩

variable {field : FieldSpec} {names : List String} {fields : List FieldSpec}
  {read : Option FieldValue → Option α} {readAll : Values → Option β}
  {P : World → ℕ → α → World → Prop} {Q : World → ℕ → β → World → Prop}

theorem Stores.last (h : Stores around site limit name field read P) :
    StoresAll around site limit [name] [field] (fun values => read (values.lookup name)) P := by
  obtain rfl := h.name_eq
  constructor
  · rfl
  · intro w table a later
    rw [h.iff]
    simp only [passes_bindFields_cons, passes_bindFields_nil]
    constructor
    · rintro ⟨o, ho, ha⟩
      refine ⟨_, ⟨o, later, ho, [], ⟨rfl, rfl⟩, rfl⟩, ?_⟩
      simpa [Values.lookup_lastField] using ha
    · rintro ⟨_, ⟨o, _, ho, _, ⟨rfl, rfl⟩, rfl⟩, ha⟩
      refine ⟨o, ho, ?_⟩
      simpa [Values.lookup_lastField] using ha
  · intro w table values later hvalues
    simp only [passes_bindFields_cons, passes_bindFields_nil] at hvalues
    obtain ⟨o, _, ho, _, ⟨rfl, rfl⟩, rfl⟩ := hvalues
    obtain ⟨a, ha⟩ := h.total _ _ _ _ ho
    exact ⟨a, by simpa [Values.lookup_lastField] using ha⟩
  · intro other hother o more
    have hne : field.doc.name ≠ other := fun heq => hother (by simp [heq])
    rw [Values.lookup_field, if_neg hne]

theorem Stores.cons (h : Stores around site limit name field read P) (hnew : name ∉ names)
    (hrest : StoresAll around site limit names fields readAll Q) :
    StoresAll around site limit (name :: names) (field :: fields)
      (fun values => (read (values.lookup name)).bind fun a => (readAll values).map ((a, ·)))
      fun w table (a, b) later => ∃ between, P w table a between ∧ Q between table b later := by
  obtain rfl := h.name_eq
  -- what is read from the whole row, in terms of the field and of the rest
  have hread : ∀ {w table more later}, Passes around site
      (bindFields Libraries.reader limit table fields) w more later → ∀ o a b,
        ((read (((o.map ((field.doc.name, ·))).toList ++ more).lookup field.doc.name)).bind fun a =>
          (readAll ((o.map ((field.doc.name, ·))).toList ++ more)).map ((a, ·))) = some (a, b) ↔
            read o = some a ∧ readAll more = some b := by
    intro w table more later hmore o a b
    have hnone : more.lookup field.doc.name = none :=
      lookup_eq_none hmore (hrest.names_eq.symm ▸ hnew)
    rw [Values.lookup_field, if_pos rfl, hnone, Option.or_none, hrest.others _ hnew, pair_eq_some]
  constructor
  · rw [List.map_cons, hrest.names_eq]
  · rintro w table ⟨a, b⟩ later
    simp only [passes_bindFields_cons]
    constructor
    · rintro ⟨between, ha, hb⟩
      obtain ⟨o, ho, hreado⟩ := (h.iff _ _ _ _).mp ha
      obtain ⟨more, hmore, hreadmore⟩ := (hrest.iff _ _ _ _).mp hb
      exact ⟨_, ⟨o, between, ho, more, hmore, rfl⟩, (hread hmore o a b).mpr ⟨hreado, hreadmore⟩⟩
    · rintro ⟨_, ⟨o, between, ho, more, hmore, rfl⟩, hab⟩
      obtain ⟨hreado, hreadmore⟩ := (hread hmore o a b).mp hab
      exact ⟨between, (h.iff _ _ _ _).mpr ⟨o, ho, hreado⟩,
        (hrest.iff _ _ _ _).mpr ⟨more, hmore, hreadmore⟩⟩
  · intro w table values later hvalues
    obtain ⟨o, between, ho, more, hmore, rfl⟩ := passes_bindFields_cons.mp hvalues
    obtain ⟨a, ha⟩ := h.total _ _ _ _ ho
    obtain ⟨b, hb⟩ := hrest.total _ _ _ _ hmore
    exact ⟨(a, b), (hread hmore o a b).mpr ⟨ha, hb⟩⟩
  · intro other hother o more
    rw [List.mem_cons, not_or] at hother
    rw [Values.lookup_field, if_neg (Ne.symm hother.1), hrest.others _ hother.2]

/-- What the fields of a table hold makes the record that its values make. -/
theorem StoresAll.record_iff {title : String} {rule : Rule} {make : Values → α}
    (h : StoresAll around site limit names fields readAll Q) (build : β → α) (holds : β → Prop)
    (hmake : ∀ values b, readAll values = some b →
      make values = build b ∧ (rule.check limit values = none ↔ holds b)) {a : α} :
    (∃ b, Q w table b later ∧ holds b ∧ build b = a) ↔ ∃ values,
      Passes around site (bindSchema Libraries.reader limit table (.mk title fields rule)) w values
        later ∧ make values = a := by
  simp only [passes_bindSchema]
  constructor
  · rintro ⟨b, hb, hholds, rfl⟩
    obtain ⟨values, hvalues, hread⟩ := (h.iff _ _ _ _).mp hb
    obtain ⟨hmade, hrule⟩ := hmake values b hread
    exact ⟨values, ⟨hvalues, hrule.mpr hholds⟩, hmade⟩
  · rintro ⟨values, ⟨hvalues, hcheck⟩, rfl⟩
    obtain ⟨b, hread⟩ := h.total _ _ _ _ hvalues
    obtain ⟨hmade, hrule⟩ := hmake values b hread
    exact ⟨b, (h.iff _ _ _ _).mpr ⟨values, hvalues, hread⟩, hrule.mp hcheck, hmade.symm⟩

end stores

/-! ## The kinds -/

/-- Kinds whose values are found without a look-up. -/
theorem Decodes.plainly {P : Value → α → Prop} {make : α → FieldValue}
    (hget : ∀ a, get (make a) = some a)
    (h : ∀ w v value later,
      Passes around site (bindKind Libraries.reader limit v kind) w value later ↔
        ∃ a, P v a ∧ make a = value ∧ w = later) :
    Decodes around site limit kind get (Plainly P) where
  iff w v a later := by
    simp only [Plainly, h]
    constructor
    · rintro ⟨ha, rfl⟩
      exact ⟨make a, ⟨a, ha, rfl, rfl⟩, hget a⟩
    · rintro ⟨_, ⟨a', ha, rfl, rfl⟩, hmade⟩
      obtain rfl := Option.some.inj ((hget a').symm.trans hmade)
      exact ⟨ha, rfl⟩
  total w v value later hvalue := by
    obtain ⟨a, -, rfl, -⟩ := (h w v value later).mp hvalue
    exact ⟨a, hget a⟩

theorem decodes_text (options : List String) :
    Decodes around site limit (.text options) FieldValue.text?
      (Plainly fun v s => v.IsText s ∧ (options = [] ∨ s ∈ options)) :=
  Decodes.plainly (fun _ => rfl) fun _ _ _ _ => passes_text

theorem decodes_path : Decodes around site limit .path FieldValue.path? (Plainly Value.IsPath) :=
  Decodes.plainly (fun _ => rfl) fun _ _ _ _ => passes_path

theorem decodes_boolean :
    Decodes around site limit .boolean FieldValue.boolean? (Plainly Value.IsBoolean) :=
  Decodes.plainly (fun _ => rfl) fun _ _ _ _ => passes_boolean

theorem decodes_integer {b : Bounds} (hb : Narrow b) :
    Decodes around site limit (.integer b) FieldValue.integer? (Plainly (Value.IsBounded b)) :=
  Decodes.plainly (fun _ => rfl) fun _ _ _ _ => passes_integer hb

/-- Nothing is lost where an integer is stored in enough bits. -/
theorem lowBits_natCast {bits n : ℕ} (hn : n < 2 ^ bits) : Values.lowBits bits n = n := by
  unfold Values.lowBits
  rw [Nat.one_shiftLeft, Int.emod_eq_of_lt (Int.natCast_nonneg n) (Int.ofNat_lt.mpr hn),
    Int.toNat_natCast]

theorem decodes_natural {greatest : ℕ} (bits : ℕ) (hb : Narrow ⟨0, greatest⟩)
    (hbits : greatest < 2 ^ bits) :
    Decodes around site limit (.integer ⟨0, greatest⟩)
      (fun value => value.integer?.map (Values.lowBits bits))
      (Plainly (Value.IsNatural greatest)) := by
  refine ((decodes_integer hb).map _).congr fun w v n later => ?_
  constructor
  · rintro ⟨m, ⟨⟨hm, hlow, hhigh⟩, rfl⟩, rfl⟩
    obtain ⟨n, rfl⟩ := Int.eq_ofNat_of_zero_le hlow
    have hle : n ≤ greatest := Int.ofNat_le.mp hhigh
    rw [lowBits_natCast (hle.trans_lt hbits)]
    exact ⟨⟨hm, hle⟩, rfl⟩
  · rintro ⟨⟨hn, hle⟩, rfl⟩
    exact ⟨n, ⟨⟨hn, Int.natCast_nonneg n, Int.ofNat_le.mpr hle⟩, rfl⟩,
      lowBits_natCast (hle.trans_lt hbits)⟩

/-- The bounds are those of numbers that fit into one byte. -/
def Short (b : Bounds) : Prop :=
  0 ≤ b.least ∧ b.greatest < 256

theorem Short.narrow {b : Bounds} (h : Short b) : Narrow b :=
  ⟨by have := h.1; omega, by have := h.2; omega⟩

theorem Short.stored {b : Bounds} (h : Short b) {v : Value} {n : ℤ} (hn : v.IsBounded b n) :
    (Values.lowBits 8 n : ℤ) = n := by
  obtain ⟨-, hlow, hhigh⟩ := hn
  obtain ⟨m, rfl⟩ := Int.eq_ofNat_of_zero_le (h.1.trans hlow)
  have hm : m < 2 ^ 8 := by
    have := h.2
    omega
  exact congrArg Nat.cast (lowBits_natCast hm)

theorem decodes_range {start stop : Bounds} (hstart : Short start) (hstop : Short stop) :
    Decodes around site limit (.range start stop)
      (fun value => value.range?.map fun (first, last) =>
        (⟨Values.lowBits 8 first, Values.lowBits 8 last⟩ : ValueRange))
      (IsRange start stop) where
  iff w v r later := by
    simp only [IsRange, passes_range hstart.narrow hstop.narrow]
    constructor
    · rintro ⟨id, rfl, hlength, hfirst, hlast, hlt, rfl⟩
      refine ⟨_, ⟨id, rfl, r.start, r.stop, ⟨hlength, hfirst, hlast, Int.ofNat_lt.mpr hlt⟩, rfl,
        rfl⟩, ?_⟩
      have hstored := Int.ofNat_inj.mp (hstart.stored hfirst)
      have hstored' := Int.ofNat_inj.mp (hstop.stored hlast)
      simp only [FieldValue.range?, Option.map_some, hstored, hstored']
    · rintro ⟨_, ⟨id, rfl, first, last, ⟨hlength, hfirst, hlast, hlt⟩, rfl, rfl⟩, ⟨⟩⟩
      refine ⟨id, rfl, hlength, ?_, ?_, ?_, rfl⟩
      · rwa [hstart.stored hfirst]
      · rwa [hstop.stored hlast]
      · rwa [← Int.ofNat_lt, hstart.stored hfirst, hstop.stored hlast]
  total w v value later hvalue := by
    obtain ⟨id, -, first, last, -, rfl, -⟩ := (passes_range hstart.narrow hstop.narrow).mp hvalue
    exact ⟨_, rfl⟩

theorem decodes_record {schema : Schema} {make : Values → α} {P : World → ℕ → α → World → Prop}
    (h : ∀ w id a later, P w id a later ↔ ∃ values,
      Passes around site (bindSchema Libraries.reader limit id schema) w values later ∧
        make values = a) :
    Decodes around site limit (.record schema) (fun value => value.record?.map make)
      (IsNested P) where
  iff w v a later := by
    simp only [IsNested, h, passes_record]
    constructor
    · rintro ⟨id, rfl, values, hvalues, rfl⟩
      exact ⟨_, ⟨id, rfl, values, hvalues, rfl⟩, rfl⟩
    · rintro ⟨_, ⟨id, rfl, values, hvalues, rfl⟩, hget⟩
      exact ⟨id, rfl, values, hvalues, Option.some.inj hget⟩
  total w v value later hvalue := by
    obtain ⟨id, -, values, -, rfl⟩ := passes_record.mp hvalue
    exact ⟨_, rfl⟩

end records

end Binding

end Multisample.Script
