import Multisample.Proofs.Script.Demands

/-!
# What a schema demands, in order

A schema demands something of each field of a table in turn.  What is demanded of a
nested record stands where its field stands, and what a record's rule demands stands
behind all of its fields.  A table that does not fit a schema misses a demand, and the
error tells the first one that it misses.
-/

namespace Multisample.Script

open Builtins

/-! ## Tables and their fields -/

/-- What is demanded of a value if it is a table. -/
def Value.tableDemands (v : Value) (demands : ℕ → List Demand) : List Demand :=
  match v with
  | .table id => demands id
  | _ => []

namespace View

/-- The field is there and holds this. -/
def Holds (view : View) (table : ℕ) (name : String) (P : Value → Prop) : Prop :=
  ∃ v, view.field table name = .ok v ∧ P v

def nameDemands (view : View) (limit table : ℕ) : List Demand :=
  [⟨["name"], fun x => view.Holds table "name" (·.IsText "") ∧ x = .emptyText⟩,
    ⟨["name"], fun x => ∃ s, view.Holds table "name" (·.IsText s) ∧ limit < s.utf8ByteSize ∧
      x = .longName s limit⟩]

/-- What a rule demands of the fields of a record. -/
def ruleDemands (view : View) (limit table : ℕ) : Rule → List Demand
  | .none => []
  | .named => view.nameDemands limit table
  | .authored => view.nameDemands limit table ++
      [⟨["author"], fun x => view.Holds table "author" (·.IsText "") ∧ x = .emptyText⟩]
  | .loopOrder =>
      [⟨["end_frame"], fun x => ∃ start stop, view.Holds table "start_frame" (·.IsInteger start) ∧
        view.Holds table "end_frame" (·.IsInteger stop) ∧ (0 ≤ start ↔ 0 ≤ stop) ∧ stop ≤ start ∧
        x = .loopOrder start stop⟩]

/-- The field can be looked up, and it is there if it has to be. -/
def presenceDemands (view : View) (table : ℕ) (doc : FieldDoc) : List Demand :=
  [⟨[], fun x => ∃ message, view.field table doc.name = .error message ∧ x = .raised message⟩,
    ⟨[], fun x => doc.required = true ∧ view.field table doc.name = .ok .nil ∧ x = .missing⟩]

/-- What a field is demanded to hold if it is there. -/
def presentDemands (view : View) (table : ℕ) (name : String) (demands : Value → List Demand) :
    List Demand :=
  match view.field table name with
  | .error _ | .ok .nil => []
  | .ok v => demands v

mutual

/-- What a kind of field demands of a value. -/
def kindDemands (view : View) (limit : ℕ) (v : Value) : FieldKind → List Demand
  | .text options => v.textDemands ++ [v.optionDemand options]
  | .path => v.textDemands ++ [v.pathDemand]
  | .integer bounds => v.wholeDemands ++ [v.boundDemand bounds]
  | .boolean => [v.demandKind "boolean" (∃ b, v = .bool b)]
  | .textList => v.demandKind "array of strings" (∃ id, v = .table id) ::
      v.tableDemands fun id => (view.table id).textsDemands
  | .range start stop => v.demandKind "array of 2 integers" (∃ id, v = .table id) ::
      v.tableDemands fun id => (view.table id).rangeDemands start stop
  | .record schema => v.demandKind "table" (∃ id, v = .table id) ::
      v.tableDemands fun id => view.demands limit id schema

def fieldDemands (view : View) (limit table : ℕ) : FieldSpec → List Demand
  | .mk doc kind => (view.presenceDemands table doc ++
      view.presentDemands table doc.name fun v => view.kindDemands limit v kind).map
        (Demand.under doc.name)

def fieldsDemands (view : View) (limit table : ℕ) : List FieldSpec → List Demand
  | [] => []
  | field :: rest => view.fieldDemands limit table field ++ view.fieldsDemands limit table rest

/-- What a schema demands of a table: first of each field in turn, then by its rule. -/
def demands (view : View) (limit table : ℕ) : Schema → List Demand
  | .mk _ fields rule => view.fieldsDemands limit table fields ++ view.ruleDemands limit table rule

end

end View

/-! ## Schemas that can be checked -/

/-- A field of this name is declared to hold a text. -/
def DeclaresText (fields : List FieldSpec) (name : String) : Prop :=
  ∃ doc options, .mk doc (.text options) ∈ fields ∧ doc.name = name

def DeclaresInteger (fields : List FieldSpec) (name : String) : Prop :=
  ∃ doc bounds, .mk doc (.integer bounds) ∈ fields ∧ Binding.Narrow bounds ∧ doc.name = name

/-- The fields that a rule reads are declared. -/
def Rule.Reads (fields : List FieldSpec) : Rule → Prop
  | .none => True
  | .named => DeclaresText fields "name"
  | .authored => DeclaresText fields "name" ∧ DeclaresText fields "author"
  | .loopOrder => DeclaresInteger fields "start_frame" ∧ DeclaresInteger fields "end_frame"

mutual

def FieldKind.Sound : FieldKind → Prop
  | .integer bounds => Binding.Narrow bounds
  | .range start stop => Binding.Narrow start ∧ Binding.Narrow stop
  | .record schema => schema.Sound
  | .text _ | .path | .boolean | .textList => True

def FieldSpec.Sound : FieldSpec → Prop
  | .mk _ kind => kind.Sound

def FieldSpec.AllSound : List FieldSpec → Prop
  | [] => True
  | field :: rest => field.Sound ∧ FieldSpec.AllSound rest

/-- No name is declared twice, bounds are those of 64-bit integers, and the rule reads
declared fields. -/
def Schema.Sound : Schema → Prop
  | .mk _ fields rule =>
      (fields.map fun field => field.doc.name).Nodup ∧ rule.Reads fields ∧ FieldSpec.AllSound fields

end

namespace Schema

theorem sound_libraryInfo : libraryInfo.Sound := by
  refine ⟨by decide, ⟨⟨_, _, .head _, rfl⟩, ⟨_, _, .tail _ (.tail _ (.head _)), rfl⟩⟩, ?_⟩
  simp [FieldSpec.AllSound, FieldSpec.Sound, FieldKind.Sound, Binding.Narrow, maxCount]

theorem sound_instrument : instrument.Sound := by
  refine ⟨by decide, ⟨_, _, .head _, rfl⟩, ?_⟩
  simp [FieldSpec.AllSound, FieldSpec.Sound, FieldKind.Sound]

theorem sound_impulseResponse : impulseResponse.Sound := by
  refine ⟨by decide, ⟨_, _, .head _, rfl⟩, ?_⟩
  simp [FieldSpec.AllSound, FieldSpec.Sound, FieldKind.Sound]

theorem sound_sampleLoop : sampleLoop.Sound := by
  have hframe : Binding.Narrow ⟨-maxCount, maxCount⟩ := by norm_num [Binding.Narrow, maxCount]
  refine ⟨by decide, ⟨⟨_, _, .head _, hframe, rfl⟩, ⟨_, _, .tail _ (.head _), hframe, rfl⟩⟩, ?_⟩
  simp [FieldSpec.AllSound, FieldSpec.Sound, FieldKind.Sound, Binding.Narrow, maxCount]

theorem sound_regionFile : regionFile.Sound := by
  refine ⟨by decide, trivial, ?_⟩
  simp [FieldSpec.AllSound, FieldSpec.Sound, FieldKind.Sound, Binding.Narrow, sound_sampleLoop]

theorem sound_trigger : trigger.Sound := by
  refine ⟨by decide, trivial, ?_⟩
  simp [FieldSpec.AllSound, FieldSpec.Sound, FieldKind.Sound, Binding.Narrow, maxCount, keyRange,
    percentRange]

theorem sound_regionOptions : regionOptions.Sound := by
  refine ⟨by decide, trivial, ?_⟩
  simp [FieldSpec.AllSound, FieldSpec.Sound, FieldKind.Sound, Binding.Narrow, percentRange]

theorem sound_region : region.Sound := by
  refine ⟨by decide, trivial, ?_⟩
  simp [FieldSpec.AllSound, FieldSpec.Sound, FieldKind.Sound, sound_regionFile, sound_trigger,
    sound_regionOptions]

theorem sound_of_mem_all {schema : Schema} (h : schema ∈ all) : schema.Sound := by
  simp only [all, List.mem_cons, List.not_mem_nil, or_false] at h
  rcases h with rfl | rfl | rfl | rfl | rfl | rfl | rfl | rfl
  · exact sound_libraryInfo
  · exact sound_instrument
  · exact sound_impulseResponse
  · exact sound_region
  · exact sound_regionFile
  · exact sound_sampleLoop
  · exact sound_trigger
  · exact sound_regionOptions

end Schema

namespace Binding

variable {α : Type} {view : View} {limit : ℕ}

theorem judges_table {v : Value} {expected : String} {demands : ℕ → List Demand}
    {f : ℕ → ExceptT Issue Id α} (hf : ∀ id, v = .table id → Judges (demands id) (f id).run) :
    Judges (v.demandKind expected (∃ id, v = .table id) :: v.tableDemands demands)
      ((liftM (toTable expected v) : ExceptT Issue Id ℕ) >>= f).run := by
  cases v with
  | table id => exact (hf id rfl).cons (met_kind ⟨id, rfl⟩)
  | _ => exact judges_wrongKind (by simp) _

theorem eq_ok_of_mapError {x : Except Issue α} {f : Issue → Issue} {a : α}
    (h : x.mapError f = .ok a) : x = .ok a := by
  cases x with
  | ok b => exact h
  | error i => cases h

theorem run_bindField {table : ℕ} {doc : FieldDoc} {kind : FieldKind} :
    (bindField view.reader limit table (.mk doc kind)).run =
      Except.mapError (Issue.under doc.name) (match view.field table doc.name with
        | .error message => violate (.raised message)
        | .ok .nil => if doc.required then violate .missing else .ok none
        | .ok v => do return some (← (bindKind view.reader limit v kind).run)) := by
  have hrun : (bindField view.reader limit table (.mk doc kind)).run =
      Except.mapError (Issue.under doc.name) (ExceptT.run (m := Id)
        (match view.field table doc.name with
          | .error message => throw ⟨[], .raised message⟩
          | .ok .nil => if doc.required then throw ⟨[], .missing⟩ else return none
          | .ok v => do return some (← bindKind view.reader limit v kind))) := rfl
  rw [hrun]
  cases hfield : view.field table doc.name with
  | error message => rfl
  | ok v =>
      cases v with
      | nil => dsimp only; split <;> rfl
      | _ => exact congrArg _ (run_bind_id _ _)

/-- A field that passes is absent, or what it holds passes. -/
theorem field_of_run_bindField {table : ℕ} {doc : FieldDoc} {kind : FieldKind}
    {o : Option FieldValue} (h : (bindField view.reader limit table (.mk doc kind)).run = .ok o) :
    (view.field table doc.name = .ok .nil ∧ o = none) ∨
      ∃ v value, view.field table doc.name = .ok v ∧
        (bindKind view.reader limit v kind).run = .ok value ∧ o = some value := by
  rw [run_bindField] at h
  have h := eq_ok_of_mapError h
  cases hfield : view.field table doc.name with
  | error message =>
      rw [hfield] at h
      cases h
  | ok v =>
      rw [hfield] at h
      cases v with
      | nil =>
          dsimp only at h
          split at h
          · cases h
          · exact Or.inl ⟨rfl, (Except.ok.inj h).symm⟩
      | _ =>
          obtain ⟨value, hvalue, ho⟩ := except_bind_eq_ok.mp h
          exact Or.inr ⟨_, value, rfl, hvalue, (Except.ok.inj ho).symm⟩

/-! ## Fields that a rule reads -/

section rules

variable {table : ℕ} {fields : List FieldSpec} {values : Values}

theorem run_bindFields_cons {field : FieldSpec} {rest : List FieldSpec}
    (h : (bindFields view.reader limit table (field :: rest)).run = .ok values) :
    ∃ o more, (bindField view.reader limit table field).run = .ok o ∧
      (bindFields view.reader limit table rest).run = .ok more ∧
      (o.map ((field.doc.name, ·))).toList ++ more = values := by
  rw [bindFields, run_bind_id] at h
  obtain ⟨o, ho, h⟩ := except_bind_eq_ok.mp h
  rw [run_bind_id] at h
  obtain ⟨more, hmore, h⟩ := except_bind_eq_ok.mp h
  exact ⟨o, more, ho, hmore, Except.ok.inj h⟩

theorem lookup_undeclared (h : (bindFields view.reader limit table fields).run = .ok values)
    {name : String} (hname : name ∉ fields.map fun field => field.doc.name) :
    values.lookup name = none := by
  induction fields generalizing values with
  | nil =>
      obtain rfl := Except.ok.inj h
      rfl
  | cons field rest ih =>
      obtain ⟨o, more, -, hmore, rfl⟩ := run_bindFields_cons h
      rw [List.map_cons, List.mem_cons, not_or] at hname
      rw [Values.lookup_field, if_neg hname.1]
      exact ih hmore hname.2

/-- Under the name of a declared field stands what was made of that field. -/
theorem lookup_declared (h : (bindFields view.reader limit table fields).run = .ok values)
    (hnames : (fields.map fun field => field.doc.name).Nodup) {field : FieldSpec}
    (hmem : field ∈ fields) :
    (bindField view.reader limit table field).run = .ok (values.lookup field.doc.name) := by
  induction fields generalizing values with
  | nil => exact absurd hmem List.not_mem_nil
  | cons first rest ih =>
      obtain ⟨o, more, ho, hmore, rfl⟩ := run_bindFields_cons h
      obtain ⟨hfirst, hrest⟩ := List.nodup_cons.mp hnames
      rw [Values.lookup_field]
      rcases List.mem_cons.mp hmem with rfl | hmem
      · rw [if_pos rfl, lookup_undeclared hmore hfirst, Option.or_none, ho]
      · have hne : field.doc.name ≠ first.doc.name := fun heq =>
          hfirst (List.mem_map.mpr ⟨field, hmem, heq⟩)
        rw [if_neg hne]
        exact ih hmore hrest hmem

/-- What is read of the value of a declared field is what the field holds. -/
theorem stored_iff (h : (bindFields view.reader limit table fields).run = .ok values)
    (hnames : (fields.map fun field => field.doc.name).Nodup) {doc : FieldDoc} {kind : FieldKind}
    (hmem : .mk doc kind ∈ fields) {get : FieldValue → Option α} {P : Value → α → Prop}
    (hkind : ∀ v value, (bindKind view.reader limit v kind).run = .ok value →
      ∀ a, get value = some a ↔ P v a) (hnil : ∀ a, ¬ P .nil a) (a : α) :
    (values.lookup doc.name).bind get = some a ↔ view.Holds table doc.name (P · a) := by
  have hholds : ∀ v, view.field table doc.name = .ok v →
      (view.Holds table doc.name (P · a) ↔ P v a) := by
    intro v hv
    constructor
    · rintro ⟨u, hu, hP⟩
      rwa [Except.ok.inj (hv.symm.trans hu)]
    · exact fun hP => ⟨v, hv, hP⟩
  rcases field_of_run_bindField (lookup_declared h hnames hmem) with ⟨hfield, hstored⟩ |
    ⟨v, value, hfield, hvalue, hstored⟩
  · have hstored : values.lookup doc.name = none := hstored
    rw [hstored, hholds _ hfield]
    exact ⟨nofun, fun hP => absurd hP (hnil a)⟩
  · have hstored : values.lookup doc.name = some value := hstored
    rw [hstored, hholds v hfield]
    exact hkind v value hvalue a

theorem text_stored_iff (h : (bindFields view.reader limit table fields).run = .ok values)
    (hnames : (fields.map fun field => field.doc.name).Nodup) {name : String}
    (hdeclared : DeclaresText fields name) (s : String) :
    values.text? name = some s ↔ view.Holds table name (·.IsText s) := by
  obtain ⟨doc, options, hmem, rfl⟩ := hdeclared
  rw [Values.text?_eq]
  refine stored_iff h hnames hmem (P := Value.IsText) ?_ (by simp [Value.IsText]) s
  intro v value hvalue t
  rw [bindKind, run_bind_id] at hvalue
  obtain ⟨u, hu, hvalue⟩ := except_bind_eq_ok.mp hvalue
  obtain rfl := Except.ok.inj hvalue
  have hu : v.IsText u := (toOption_eq_ok.mp hu).1
  rw [← toText_eq_ok, toText_eq_ok.mpr hu]
  simp [FieldValue.text?]

theorem integer_stored_iff (h : (bindFields view.reader limit table fields).run = .ok values)
    (hnames : (fields.map fun field => field.doc.name).Nodup) {name : String}
    (hdeclared : DeclaresInteger fields name) (n : ℤ) :
    values.integer? name = some n ↔ view.Holds table name (·.IsInteger n) := by
  obtain ⟨doc, bounds, hmem, hbounds, rfl⟩ := hdeclared
  rw [Values.integer?_eq]
  refine stored_iff h hnames hmem (P := Value.IsInteger) ?_
    (by simp [Value.IsInteger, Value.rational?]) n
  intro v value hvalue m
  rw [bindKind, run_bind_id] at hvalue
  obtain ⟨k, hk, hvalue⟩ := except_bind_eq_ok.mp hvalue
  obtain rfl := Except.ok.inj hvalue
  have hk : v.IsInteger k := ((toBounded_eq_ok hbounds).mp hk).1
  simp only [FieldValue.integer?, Option.some.injEq]
  exact ⟨fun heq => heq ▸ hk, fun hm => isInteger_unique hk hm⟩

/-- The outcome of a rule by itself. -/
def ruling (o : Option Issue) : Except Issue Unit :=
  match o with
  | some issue => .error issue
  | none => .ok ()

theorem judges_checkName
    (h : ∀ s, values.text? "name" = some s ↔ view.Holds table "name" (·.IsText s)) :
    Judges (view.nameDemands limit table) (ruling (Rule.checkName limit values)) := by
  unfold View.nameDemands Rule.checkName
  simp only [← h]
  cases values.text? "name" with
  | none => exact ((judges_nil ()).cons (by simp [Demand.Met])).cons (by simp [Demand.Met])
  | some s =>
      by_cases hempty : s = ""
      · subst hempty
        exact judges_breach ⟨rfl, rfl⟩ rfl
      · refine Judges.cons ?_ (by simp [Demand.Met, hempty])
        by_cases hlong : limit < s.utf8ByteSize
        · simp only [hempty, hlong, beq_iff_eq, if_true, if_false]
          exact judges_breach ⟨s, rfl, hlong, rfl⟩ rfl
        · simp only [hempty, hlong, beq_iff_eq, if_false]
          exact (judges_nil ()).cons (by simp [Demand.Met, hlong])

/-- The values of declared fields are what the fields hold. -/
theorem judges_rule {rule : Rule} (hnames : (fields.map fun field => field.doc.name).Nodup)
    (hreads : rule.Reads fields)
    (h : (bindFields view.reader limit table fields).run = .ok values) :
    Judges (view.ruleDemands limit table rule) (ruling (rule.check limit values)) := by
  cases rule with
  | none => exact judges_nil ()
  | named => exact judges_checkName (text_stored_iff h hnames hreads)
  | authored =>
      have hname : Judges (view.nameDemands limit table) (ruling (Rule.checkName limit values)) :=
        judges_checkName (text_stored_iff h hnames hreads.1)
      have hauthor := text_stored_iff h hnames hreads.2
      have hrule : ruling (Rule.authored.check limit values) =
          ruling (Rule.checkName limit values) >>= fun _ =>
            ruling (if values.text? "author" == some "" then some ⟨["author"], .emptyText⟩
              else none) := by
        rw [Rule.check]
        cases Rule.checkName limit values <;> rfl
      rw [hrule]
      refine hname.bind fun _ _ => ?_
      by_cases hempty : values.text? "author" = some ""
      · rw [if_pos (by simp [hempty])]
        exact judges_breach ⟨(hauthor "").mp hempty, rfl⟩ rfl
      · rw [if_neg (by simpa using hempty)]
        refine (judges_nil ()).cons ?_
        rintro x ⟨hholds, -⟩
        exact hempty ((hauthor "").mpr hholds)
  | loopOrder =>
      have hstart := integer_stored_iff h hnames hreads.1
      have hstop := integer_stored_iff h hnames hreads.2
      unfold View.ruleDemands Rule.check
      simp only [← hstart, ← hstop]
      cases values.integer? "start_frame" with
      | none => exact (judges_nil ()).cons (by simp [Demand.Met])
      | some start =>
          cases values.integer? "end_frame" with
          | none => exact (judges_nil ()).cons (by simp [Demand.Met])
          | some stop =>
              dsimp only
              split
              · rename_i hout
                rw [Bool.and_eq_true, beq_iff_eq, decide_eq_decide, decide_eq_true_eq] at hout
                exact judges_breach ⟨start, stop, rfl, rfl, hout.1, hout.2, rfl⟩ rfl
              · rename_i hordered
                rw [Bool.and_eq_true, beq_iff_eq, decide_eq_decide, decide_eq_true_eq] at hordered
                refine (judges_nil ()).cons ?_
                rintro x ⟨_, _, ⟨⟩, ⟨⟩, hsame, hle, -⟩
                exact hordered ⟨hsame, hle⟩

end rules

mutual

theorem judges_bindKind (v : Value) : ∀ {kind : FieldKind}, kind.Sound →
    Judges (view.kindDemands limit v kind) (bindKind view.reader limit v kind).run
  | .text options, _ => Judges.run_map (judges_toOption options v) FieldValue.text
  | .path, _ => Judges.run_map (judges_toPath v) FieldValue.path
  | .integer _, h => Judges.run_map (judges_toBounded h v) FieldValue.integer
  | .boolean, _ => by
      cases v with
      | bool b => exact (judges_nil (FieldValue.boolean b)).cons (met_kind ⟨b, rfl⟩)
      | _ => exact judges_wrongKind (by simp) []
  | .textList, _ => judges_table fun id _ =>
      Judges.run_map (judges_toTexts (view.table id)) FieldValue.textList
  | .range start stop, ⟨hstart, hstop⟩ => judges_table fun id _ =>
      Judges.run_map (judges_toRange hstart hstop (view.table id)) fun ends =>
        FieldValue.range ends.1 ends.2
  | .record _, h => judges_table fun id _ =>
      Judges.run_map (judges_bindSchema id h) FieldValue.record

theorem judges_bindField (table : ℕ) : ∀ {field : FieldSpec}, field.Sound →
    Judges (view.fieldDemands limit table field) (bindField view.reader limit table field).run
  | .mk doc kind, h => by
      rw [run_bindField]
      refine Judges.under ?_ doc.name
      unfold View.presenceDemands View.presentDemands
      cases hfield : view.field table doc.name with
      | error message => exact judges_breach ⟨message, rfl, rfl⟩ rfl
      | ok v =>
          refine Judges.cons ?_ (by simp [Demand.Met])
          by_cases hnil : v = .nil
          · subst hnil
            cases hrequired : doc.required with
            | true => exact judges_breach ⟨rfl, rfl, rfl⟩ rfl
            | false => exact (judges_nil _).cons (by simp [Demand.Met])
          · have hkind := judges_bindKind v h
            have hmet : (Demand.mk [] fun x => doc.required = true ∧
                (.ok v : Except String Value) = .ok .nil ∧ x = .missing).Met := by
              simp [Demand.Met, hnil]
            cases v with
            | nil => exact absurd rfl hnil
            | _ => exact (hkind.map some).cons hmet

theorem judges_bindFields (table : ℕ) : ∀ {fields : List FieldSpec}, FieldSpec.AllSound fields →
    Judges (view.fieldsDemands limit table fields) (bindFields view.reader limit table fields).run
  | [], _ => judges_nil []
  | field :: _, ⟨hfield, hrest⟩ =>
      Judges.run_bind (judges_bindField table hfield) fun o _ =>
        Judges.run_map (judges_bindFields table hrest) fun more =>
          (o.map ((field.doc.name, ·))).toList ++ more

theorem judges_bindSchema (table : ℕ) : ∀ {schema : Schema}, schema.Sound →
    Judges (view.demands limit table schema) (bindSchema view.reader limit table schema).run
  | .mk _ fields rule, ⟨hnames, hreads, hsound⟩ =>
      Judges.run_bind (judges_bindFields table hsound) fun values hvalues => by
        have hrule := judges_rule hnames hreads hvalues
        cases hcheck : rule.check limit values with
        | none =>
            rw [hcheck] at hrule
            exact hrule
        | some issue =>
            rw [hcheck] at hrule
            exact hrule

end

/-- Plain data that is bound to a schema meets all that the schema demands.  Else the
error has the name of the schema and the path of the first demand that is not met,
and all demands before it are met.  What the demands speak of is what the tables
hold themselves, if they have no metatables. -/
theorem bind_tells_first {schema : Schema} (hschema : schema ∈ Schema.all) {w : World}
    {among : Value → Prop} (hplain : w.Inert among) {table : ℕ} (htable : among (.table table))
    (around : Surroundings) (site : Site) (limit : ℕ) :
    ((∀ t ∈ w.heap.tables, t.metatable = none) →
      ∀ id name, (w.view site).field id name = .ok (w.heap.get id (.ofString name))) ∧
    ∃ outcome, (bind Libraries.reader limit table schema site w).finish around =
        (w, .gives outcome) ∧
      match outcome with
      | .ok _ => ∀ d ∈ (w.view site).demands limit table schema, d.Met
      | .error e => e.record = schema.name ∧ ∃ before d after,
          (w.view site).demands limit table schema = before ++ d :: after ∧
            (∀ earlier ∈ before, earlier.Met) ∧ d.breach e.issue.violation ∧
            e.issue.field = ".".intercalate d.path := by
  refine ⟨fun h id name => World.answer_of_noMetatables h site id name, ?_⟩
  let R := hplain.reading around site w.build
  obtain ⟨later, hlater, hends⟩ :=
    R.yields_bind limit htable (R.view.agreesOn_refl table schema) w rfl
  have hlater : later = w := hlater
  subst hlater
  refine ⟨_, hends, ?_⟩
  have hjudges : Judges ((later.view site).demands limit table schema)
      (bindSchema (later.view site).reader limit table schema).run :=
    judges_bindSchema table (Schema.sound_of_mem_all hschema)
  have hview : R.view = later.view site := rfl
  rw [hview, Reading.bind_view]
  cases hrun : (bindSchema (later.view site).reader limit table schema).run with
  | ok values =>
      rw [hrun] at hjudges
      exact hjudges
  | error i =>
      rw [hrun] at hjudges
      obtain ⟨before, d, after, hds, hbefore, hbreach, hpath⟩ := hjudges
      exact ⟨rfl, before, d, after, hds, hbefore, hbreach, congrArg (".".intercalate ·) hpath⟩

/-- A region whose loop ends before it starts; what is said about its keys is wrong too. -/
def crookedRegion : World where
  heap := { tables :=
    let tableOf (entries : List (String × Value)) : Table :=
      entries.foldl (fun t entry => t.set (.ofString entry.1) entry.2) {}
    #[{}, tableOf [("file", .table 2), ("trigger_criteria", .bool true)],
      tableOf [("path", .ofString "piano.wav"), ("root_key", .ofNat 62), ("loop", .table 3)],
      tableOf [("start_frame", .ofNat 100), ("end_frame", .ofNat 50)]] }
  build := ⟨"piano.lua", 100, []⟩
  watchdog := { limit := 0 }

/-- Calls end at once, and there is memory. -/
def atOnce : Surroundings where
  call w _ _ := (w, .ok [])
  provide w _ := (w, true)

/-- The issue that an outcome tells. -/
def issue? (outcome : World × Conclusion (Except BindError Values)) : Option Issue :=
  match outcome.2 with
  | .gives (.error e) => some e.issue
  | _ => none

/-- The rule of the loop comes before the next field of the region. -/
theorem bind_tells_first_crooked :
    Schema.region ∈ Schema.all ∧ crookedRegion.Inert (fun v => ∃ id, v = .table id) ∧
      ∃ e, (bind Libraries.reader 100 1 .region {} crookedRegion).finish atOnce =
          (crookedRegion, .gives (.error e)) ∧
        e.record = "Region" ∧ e.issue.field = "file.loop.end_frame" ∧
        e.issue.violation = .loopOrder 100 50 ∧
        ∃ before d after, (crookedRegion.view {}).demands 100 1 .region = before ++ d :: after ∧
          (∀ earlier ∈ before, earlier.Met) ∧ d.breach (.loopOrder 100 50) := by
  have hmem : Schema.region ∈ Schema.all := by simp [Schema.all]
  have hnone : ∀ t ∈ crookedRegion.heap.tables, t.metatable = none := by decide +kernel
  have hplain := World.inert_of_noMetatables hnone
  obtain ⟨-, outcome, hfinish, hjudged⟩ := bind_tells_first hmem hplain ⟨1, rfl⟩ atOnce {} 100
  have hissue : issue? ((bind Libraries.reader 100 1 .region {} crookedRegion).finish atOnce) =
      some ⟨["file", "loop", "end_frame"], .loopOrder 100 50⟩ := by decide +kernel
  rw [hfinish] at hissue
  cases outcome with
  | ok values => cases hissue
  | error e =>
      obtain ⟨record, issue⟩ := e
      obtain rfl := Option.some.inj hissue
      obtain ⟨hrecord, before, d, after, hdemands, hmet, hbreach, -⟩ := hjudged
      exact ⟨hmem, hplain, _, hfinish, hrecord, rfl, rfl, before, d, after, hdemands, hmet, hbreach⟩

end Binding

end Multisample.Script
