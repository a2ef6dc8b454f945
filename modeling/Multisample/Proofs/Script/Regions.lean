import Multisample.Proofs.Script.Records

/-!
# Which tables describe regions

The descriptions here name the fields of a region, their bounds and defaults one
by one and speak of numbers as such.  The fields are looked up one after the
other, each in the world that the last look-up left.  The binder accepts exactly
the tables that are described, and what it makes of them is what they describe.
-/

namespace Multisample

/-- What holds of the numbers of every region. -/
structure Region.InBounds (r : Region) : Prop where
  rootKey : r.file.rootKey ≤ 127
  keys : r.trigger.keys.start < r.trigger.keys.stop ∧ r.trigger.keys.stop ≤ 128
  velocities : r.trigger.velocities.start < r.trigger.velocities.stop ∧
    r.trigger.velocities.stop ≤ 100
  timbre : ∀ range ∈ r.options.timbre, range.start < range.stop ∧ range.stop ≤ 100

namespace Script

open Builtins

namespace Surroundings

variable (around : Surroundings) (site : Site)

/-- Ends that count from the same side are in order. -/
def IsLoop (w : World) (table : ℕ) (l : SampleLoop) (later : World) : Prop :=
  ∃ w₁ w₂ w₃,
    around.Required site w table "start_frame"
      (Plainly (Value.IsBounded ⟨-2147483647, 2147483647⟩)) l.start w₁ ∧
    around.Required site w₁ table "end_frame"
      (Plainly (Value.IsBounded ⟨-2147483647, 2147483647⟩)) l.stop w₂ ∧
    around.Optional site w₂ table "crossfade_frames" 0 (Plainly (Value.IsNatural 2147483647))
      l.crossfade w₃ ∧
    around.Optional site w₃ table "ping_pong" false (Plainly Value.IsBoolean) l.pingPong later ∧
    ((0 ≤ l.start ↔ 0 ≤ l.stop) → l.start < l.stop)

def IsFile (w : World) (table : ℕ) (f : RegionFile) (later : World) : Prop :=
  ∃ w₁ w₂,
    around.Required site w table "path" (Plainly Value.IsPath) f.path w₁ ∧
    around.Required site w₁ table "root_key" (Plainly (Value.IsNatural 127)) f.rootKey w₂ ∧
    around.Optional site w₂ table "loop" none (IsSome (IsNested (around.IsLoop site)))
      f.sampleLoop later

def IsTrigger (w : World) (table : ℕ) (t : Trigger) (later : World) : Prop :=
  ∃ w₁ w₂ w₃,
    around.Optional site w table "trigger_event" .noteOn (Plainly fun v e => v.IsText e.text)
      t.event w₁ ∧
    around.Optional site w₁ table "key_range" ⟨60, 64⟩ (IsRange ⟨0, 127⟩ ⟨1, 128⟩) t.keys w₂ ∧
    around.Optional site w₂ table "velocity_range" ⟨0, 100⟩ (IsRange ⟨0, 99⟩ ⟨1, 100⟩)
      t.velocities w₃ ∧
    around.Optional site w₃ table "round_robin_index" none
      (IsSome (Plainly (Value.IsNatural 2147483647))) t.roundRobin later

/-- An empty name is no group. -/
def IsOptions (w : World) (table : ℕ) (o : RegionOptions) (later : World) : Prop :=
  ∃ w₁ w₂,
    around.Optional site w table "timbre_crossfade_region" none
      (IsSome (IsRange ⟨0, 99⟩ ⟨1, 100⟩)) o.timbre w₁ ∧
    around.Optional site w₁ table "auto_map_key_range_group" none
      (Plainly fun v group => ∃ s, v.IsText s ∧ group = if s = "" then none else some s)
      o.autoMapGroup w₂ ∧
    around.Optional site w₂ table "feather_overlapping_velocity_regions" false
      (Plainly Value.IsBoolean) o.feather later

def IsRegion (w : World) (table : ℕ) (r : Region) (later : World) : Prop :=
  ∃ w₁ w₂,
    around.Required site w table "file" (IsNested (around.IsFile site)) r.file w₁ ∧
    around.Optional site w₁ table "trigger_criteria" {} (IsNested (around.IsTrigger site))
      r.trigger w₂ ∧
    around.Optional site w₂ table "options" {} (IsNested (around.IsOptions site)) r.options later

end Surroundings

namespace Binding

open Surroundings

variable {around : Surroundings} {site : Site} {limit : ℕ} {w later : World} {table : ℕ}

/-! ## The records -/

theorem event_eq (values : Values) :
    (if values.text? "trigger_event" == some "note_off" then TriggerEvent.noteOff else .noteOn) =
      ((values.lookup "trigger_event").bind fun value => value.text?.map fun s =>
        if s = "note_off" then TriggerEvent.noteOff else .noteOn).getD .noteOn := by
  rw [Values.text?_eq]
  cases values.lookup "trigger_event" with
  | none => rfl
  | some value => cases h : FieldValue.text? value <;> simp [h]

theorem loopOrder_eq_none {values : Values} {start stop : ℤ}
    (hstart : values.integer? "start_frame" = some start)
    (hstop : values.integer? "end_frame" = some stop) :
    Rule.loopOrder.check limit values = none ↔ ((0 ≤ start ↔ 0 ≤ stop) → start < stop) := by
  simp only [Rule.check, hstart, hstop, ite_eq_right_iff, reduceCtorEq, imp_false,
    Bool.and_eq_true, beq_iff_eq, decide_eq_decide, decide_eq_true_eq, not_and, not_le]

theorem isLoop_iff {l : SampleLoop} :
    around.IsLoop site w table l later ↔ ∃ values,
      Passes around site (bindSchema Libraries.reader limit table .sampleLoop) w values later ∧
        values.toSampleLoop = l := by
  obtain ⟨start, stop, crossfade, pingPong, hschema, hstart, hstart', hstop, hstop', hcrossfade,
      hcrossfade', hpingPong, hpingPong'⟩ : ∃ start stop crossfade pingPong,
      Schema.sampleLoop = .mk "Loop"
        [.mk start (.integer ⟨-2147483647, 2147483647⟩), .mk stop (.integer ⟨-2147483647, 2147483647⟩),
          .mk crossfade (.integer ⟨0, (2147483647 : ℕ)⟩), .mk pingPong .boolean] .loopOrder ∧
      start.name = "start_frame" ∧ start.required = true ∧
      stop.name = "end_frame" ∧ stop.required = true ∧
      crossfade.name = "crossfade_frames" ∧ crossfade.required = false ∧
      pingPong.name = "ping_pong" ∧ pingPong.required = false :=
    ⟨_, _, _, _, rfl, rfl, rfl, rfl, rfl, rfl, rfl, rfl, rfl⟩
  have hframe : Decodes around site limit (.integer ⟨-2147483647, 2147483647⟩) FieldValue.integer?
      (Plainly (Value.IsBounded _)) := decodes_integer (by norm_num [Narrow])
  have hcount : Decodes around site limit (.integer ⟨0, (2147483647 : ℕ)⟩) _
      (Plainly (Value.IsNatural _)) := decodes_natural 32 (by norm_num [Narrow]) (by norm_num)
  have hfields := (hframe.required hstart hstart').cons (by simp) <|
    (hframe.required hstop hstop').cons (by simp) <|
    (hcount.optional hcrossfade hcrossfade' 0).cons (by simp)
    (decodes_boolean.optional hpingPong hpingPong' false).last
  rw [hschema, ← hfields.record_iff
    (fun (start, stop, crossfade, pingPong) => ⟨start, stop, crossfade, pingPong⟩)
    (fun (start, stop, _) => (0 ≤ start ↔ 0 ≤ stop) → start < stop)]
  · constructor
    · rintro ⟨w₁, w₂, w₃, h₁, h₂, h₃, h₄, horder⟩
      exact ⟨(l.start, l.stop, l.crossfade, l.pingPong), ⟨w₁, h₁, w₂, h₂, w₃, h₃, h₄⟩, horder, rfl⟩
    · rintro ⟨⟨start, stop, crossfade, pingPong⟩, ⟨w₁, h₁, w₂, h₂, w₃, h₃, h₄⟩, horder, rfl⟩
      exact ⟨w₁, w₂, w₃, h₁, h₂, h₃, h₄, horder⟩
  · rintro values ⟨start, stop, crossfade, pingPong⟩ h
    simp only [pair_eq_some, Option.some.injEq, ← Values.integer?_eq, ← Values.natural_eq,
      ← Values.boolean?_eq] at h
    obtain ⟨hstart, hstop, hcrossfade, hpingPong⟩ := h
    refine ⟨?_, loopOrder_eq_none hstart hstop⟩
    simp [Values.toSampleLoop, hstart, hstop, hcrossfade, hpingPong]

theorem isFile_iff {f : RegionFile} :
    around.IsFile site w table f later ↔ ∃ values,
      Passes around site (bindSchema Libraries.reader limit table .regionFile) w values later ∧
        values.toRegionFile = f := by
  obtain ⟨path, rootKey, sampleLoop, hschema, hpath, hpath', hrootKey, hrootKey', hsampleLoop,
      hsampleLoop'⟩ : ∃ path rootKey sampleLoop,
      Schema.regionFile = .mk "RegionFile"
        [.mk path .path, .mk rootKey (.integer ⟨0, (127 : ℕ)⟩),
          .mk sampleLoop (.record .sampleLoop)] .none ∧
      path.name = "path" ∧ path.required = true ∧
      rootKey.name = "root_key" ∧ rootKey.required = true ∧
      sampleLoop.name = "loop" ∧ sampleLoop.required = false :=
    ⟨_, _, _, rfl, rfl, rfl, rfl, rfl, rfl, rfl⟩
  have hkey : Decodes around site limit (.integer ⟨0, (127 : ℕ)⟩) _ (Plainly (Value.IsNatural _)) :=
    decodes_natural 8 (by norm_num [Narrow]) (by norm_num)
  have hloop : Decodes around site limit (.record .sampleLoop) _ (IsNested (around.IsLoop site)) :=
    decodes_record fun _ _ _ _ => isLoop_iff
  have hfields := (decodes_path.required hpath hpath').cons (by simp) <|
    (hkey.required hrootKey hrootKey').cons (by simp)
    (hloop.optionalSome hsampleLoop hsampleLoop').last
  rw [hschema, ← hfields.record_iff
    (fun (path, rootKey, sampleLoop) => ⟨path, rootKey, sampleLoop⟩)
    (fun _ => True)]
  · constructor
    · rintro ⟨w₁, w₂, h₁, h₂, h₃⟩
      exact ⟨(f.path, f.rootKey, f.sampleLoop), ⟨w₁, h₁, w₂, h₂, h₃⟩, trivial, rfl⟩
    · rintro ⟨⟨path, rootKey, sampleLoop⟩, ⟨w₁, h₁, w₂, h₂, h₃⟩, -, rfl⟩
      exact ⟨w₁, w₂, h₁, h₂, h₃⟩
  · rintro values ⟨path, rootKey, sampleLoop⟩ h
    simp only [pair_eq_some, Option.some.injEq, ← Values.path?_eq, ← Values.natural_eq,
      ← Values.record?_map] at h
    obtain ⟨hpath, hrootKey, hsampleLoop⟩ := h
    simp [Values.toRegionFile, Rule.check, hpath, hrootKey, hsampleLoop]

/-- The texts of the events are the options that the schema lists. -/
theorem decodes_event : Decodes around site limit (.text ["note_on", "note_off"])
    (fun value => value.text?.map fun s => if s = "note_off" then TriggerEvent.noteOff else .noteOn)
    (Plainly fun v e => v.IsText e.text) :=
  ((decodes_text _).map _).congr fun w v e later => by
    simp only [Plainly]
    constructor
    · rintro ⟨s, ⟨⟨hs, hoption⟩, rfl⟩, rfl⟩
      refine ⟨?_, rfl⟩
      rcases hoption with hempty | hmem
      · cases hempty
      · obtain rfl | rfl : s = "note_on" ∨ s = "note_off" := by simpa using hmem
        · exact hs
        · exact hs
    · rintro ⟨hs, rfl⟩
      refine ⟨e.text, ⟨⟨hs, Or.inr ?_⟩, rfl⟩, ?_⟩
      · cases e <;> simp [TriggerEvent.text]
      · cases e <;> rfl

theorem isTrigger_iff {t : Trigger} :
    around.IsTrigger site w table t later ↔ ∃ values,
      Passes around site (bindSchema Libraries.reader limit table .trigger) w values later ∧
        values.toTrigger = t := by
  obtain ⟨event, keys, velocities, roundRobin, hschema, hevent, hevent', hkeys, hkeys', hvelocities,
      hvelocities', hroundRobin, hroundRobin'⟩ : ∃ event keys velocities roundRobin,
      Schema.trigger = .mk "TriggerCriteria"
        [.mk event (.text ["note_on", "note_off"]), .mk keys (.range ⟨0, 127⟩ ⟨1, 128⟩),
          .mk velocities (.range ⟨0, 99⟩ ⟨1, 100⟩),
          .mk roundRobin (.integer ⟨0, (2147483647 : ℕ)⟩)] .none ∧
      event.name = "trigger_event" ∧ event.required = false ∧
      keys.name = "key_range" ∧ keys.required = false ∧
      velocities.name = "velocity_range" ∧ velocities.required = false ∧
      roundRobin.name = "round_robin_index" ∧ roundRobin.required = false :=
    ⟨_, _, _, _, rfl, rfl, rfl, rfl, rfl, rfl, rfl, rfl, rfl⟩
  have hkey : Decodes around site limit (.range ⟨0, 127⟩ ⟨1, 128⟩) _ (IsRange _ _) :=
    decodes_range (by norm_num [Short]) (by norm_num [Short])
  have hpercent : Decodes around site limit (.range ⟨0, 99⟩ ⟨1, 100⟩) _ (IsRange _ _) :=
    decodes_range (by norm_num [Short]) (by norm_num [Short])
  have hcount : Decodes around site limit (.integer ⟨0, (2147483647 : ℕ)⟩) _
      (Plainly (Value.IsNatural _)) := decodes_natural 32 (by norm_num [Narrow]) (by norm_num)
  have hfields := (decodes_event.optional hevent hevent' .noteOn).cons (by simp) <|
    (hkey.optional hkeys hkeys' ⟨60, 64⟩).cons (by simp) <|
    (hpercent.optional hvelocities hvelocities' ⟨0, 100⟩).cons (by simp)
    (hcount.optionalSome hroundRobin hroundRobin').last
  rw [hschema, ← hfields.record_iff
    (fun (event, keys, velocities, roundRobin) => ⟨event, keys, velocities, roundRobin⟩)
    (fun _ => True)]
  · constructor
    · rintro ⟨w₁, w₂, w₃, h₁, h₂, h₃, h₄⟩
      exact ⟨(t.event, t.keys, t.velocities, t.roundRobin), ⟨w₁, h₁, w₂, h₂, w₃, h₃, h₄⟩, trivial,
        rfl⟩
    · rintro ⟨⟨event, keys, velocities, roundRobin⟩, ⟨w₁, h₁, w₂, h₂, w₃, h₃, h₄⟩, -, rfl⟩
      exact ⟨w₁, w₂, w₃, h₁, h₂, h₃, h₄⟩
  · rintro values ⟨event, keys, velocities, roundRobin⟩ h
    simp only [pair_eq_some, Option.some.injEq, ← event_eq, ← Values.valueRange_eq,
      ← Values.natural_eq] at h
    obtain ⟨hevent, hkeys, hvelocities, hroundRobin⟩ := h
    simp only [Values.toTrigger, Rule.check, hevent, hkeys, hvelocities, hroundRobin, and_self]

theorem autoMapGroup_eq (values : Values) :
    (values.text? "auto_map_key_range_group").filter (· ≠ "") =
      ((values.lookup "auto_map_key_range_group").bind fun value => value.text?.map fun s =>
        if s = "" then none else some s).getD none := by
  rw [Values.text?_eq]
  cases values.lookup "auto_map_key_range_group" with
  | none => rfl
  | some value =>
      cases h : FieldValue.text? value with
      | none => simp [h]
      | some s => by_cases hs : s = "" <;> simp [h, hs]

theorem isOptions_iff {options : RegionOptions} :
    around.IsOptions site w table options later ↔ ∃ values,
      Passes around site (bindSchema Libraries.reader limit table .regionOptions) w values later ∧
        values.toRegionOptions = options := by
  obtain ⟨timbre, group, feather, hschema, htimbre, htimbre', hgroup, hgroup', hfeather,
      hfeather'⟩ : ∃ timbre group feather,
      Schema.regionOptions = .mk "RegionOptions"
        [.mk timbre (.range ⟨0, 99⟩ ⟨1, 100⟩), .mk group (.text []), .mk feather .boolean] .none ∧
      timbre.name = "timbre_crossfade_region" ∧ timbre.required = false ∧
      group.name = "auto_map_key_range_group" ∧ group.required = false ∧
      feather.name = "feather_overlapping_velocity_regions" ∧ feather.required = false :=
    ⟨_, _, _, rfl, rfl, rfl, rfl, rfl, rfl, rfl⟩
  have hpercent : Decodes around site limit (.range ⟨0, 99⟩ ⟨1, 100⟩) _ (IsRange _ _) :=
    decodes_range (by norm_num [Short]) (by norm_num [Short])
  have hname : Decodes around site limit (.text [])
      (fun value => value.text?.map fun s => if s = "" then none else some s)
      (Plainly fun v group => ∃ s, v.IsText s ∧ group = if s = "" then none else some s) :=
    ((decodes_text []).map _).congr fun w v group later => by
      simp only [Plainly, true_or, and_true]
      constructor
      · rintro ⟨s, ⟨hs, rfl⟩, rfl⟩
        exact ⟨⟨s, hs, rfl⟩, rfl⟩
      · rintro ⟨⟨s, hs, rfl⟩, rfl⟩
        exact ⟨s, ⟨hs, rfl⟩, rfl⟩
  have hfields := (hpercent.optionalSome htimbre htimbre').cons (by simp) <|
    (hname.optional hgroup hgroup' none).cons (by simp)
    (decodes_boolean.optional hfeather hfeather' false).last
  rw [hschema, ← hfields.record_iff
    (fun parts => ⟨parts.1, parts.2.1, parts.2.2⟩) (fun _ => True)]
  · constructor
    · rintro ⟨w₁, w₂, h₁, h₂, h₃⟩
      exact ⟨(options.timbre, options.autoMapGroup, options.feather), ⟨w₁, h₁, w₂, h₂, h₃⟩, trivial,
        rfl⟩
    · rintro ⟨⟨timbre, group, feather⟩, ⟨w₁, h₁, w₂, h₂, h₃⟩, -, rfl⟩
      exact ⟨w₁, w₂, h₁, h₂, h₃⟩
  · rintro values ⟨timbre, group, feather⟩ h
    simp only [pair_eq_some, Option.some.injEq, ← Values.valueRange_eq, ← autoMapGroup_eq,
      ← Values.boolean?_eq] at h
    obtain ⟨htimbre, hgroup, hfeather⟩ := h
    simp only [Values.toRegionOptions, Rule.check, htimbre, hgroup, hfeather, and_self]

theorem isRegion_iff {r : Region} :
    around.IsRegion site w table r later ↔ ∃ values,
      Passes around site (bindSchema Libraries.reader limit table .region) w values later ∧
        values.toRegion = r := by
  obtain ⟨file, trigger, options, hschema, hfile, hfile', htrigger, htrigger', hoptions,
      hoptions'⟩ : ∃ file trigger options,
      Schema.region = .mk "Region"
        [.mk file (.record .regionFile), .mk trigger (.record .trigger),
          .mk options (.record .regionOptions)] .none ∧
      file.name = "file" ∧ file.required = true ∧
      trigger.name = "trigger_criteria" ∧ trigger.required = false ∧
      options.name = "options" ∧ options.required = false :=
    ⟨_, _, _, rfl, rfl, rfl, rfl, rfl, rfl, rfl⟩
  have hplays : Decodes around site limit (.record .regionFile) _ (IsNested (around.IsFile site)) :=
    decodes_record fun _ _ _ _ => isFile_iff
  have hwhen : Decodes around site limit (.record .trigger) _ (IsNested (around.IsTrigger site)) :=
    decodes_record fun _ _ _ _ => isTrigger_iff
  have hhow : Decodes around site limit (.record .regionOptions) _
      (IsNested (around.IsOptions site)) := decodes_record fun _ _ _ _ => isOptions_iff
  have hfields := (hplays.required hfile hfile').cons (by simp) <|
    (hwhen.optional htrigger htrigger' {}).cons (by simp)
    (hhow.optional hoptions hoptions' {}).last
  rw [hschema, ← hfields.record_iff
    (fun (file, trigger, options) => ⟨file, trigger, options⟩) (fun _ => True)]
  · constructor
    · rintro ⟨w₁, w₂, h₁, h₂, h₃⟩
      exact ⟨(r.file, r.trigger, r.options), ⟨w₁, h₁, w₂, h₂, h₃⟩, trivial, rfl⟩
    · rintro ⟨⟨file, trigger, options⟩, ⟨w₁, h₁, w₂, h₂, h₃⟩, -, rfl⟩
      exact ⟨w₁, w₂, h₁, h₂, h₃⟩
  · rintro values ⟨file, trigger, options⟩ h
    simp only [pair_eq_some, Option.some.injEq, ← Values.record?_map] at h
    obtain ⟨hfile, htrigger, hoptions⟩ := h
    simp [Values.toRegion, Rule.check, hfile, htrigger, hoptions]

/-! ## Binding regions -/

theorem gives_bind {schema : Schema} {values : Values} :
    (Binding.bind Libraries.reader limit table schema site w).finish around =
        (later, .gives (.ok values)) ↔
      Passes around site (bindSchema Libraries.reader limit table schema) w values later := by
  show (((bindSchema Libraries.reader limit table schema).run site w).bind _).finish around = _ ↔ _
  rw [Step.finish_bind, Passes]
  rcases ((bindSchema Libraries.reader limit table schema).run site w).finish around with
    ⟨between, (i | vs) | e | _⟩
  · constructor
    · rintro ⟨⟩
    · rintro ⟨⟩
  · constructor
    · rintro ⟨⟩
      rfl
    · rintro ⟨⟩
      rfl
  · simp
  · simp

/-- Two worlds whose look-ups show the same declared fields give the same outcome,
whatever else their tables hold. -/
theorem bind_congr {schema : Schema} {R other : Reading} {w' : World} (hw : R.kept w)
    (hw' : other.kept w') (ht : R.reach table) (ht' : other.reach table)
    (h : R.view.AgreesOn other.view table schema) :
    ∃ outcome later later',
      (Binding.bind Libraries.reader limit table schema R.site w).finish R.around =
          (later, .gives outcome) ∧
        (Binding.bind Libraries.reader limit table schema other.site w').finish other.around =
          (later', .gives outcome) := by
  obtain ⟨later, -, hrun⟩ := R.yields_bind limit ht h w hw
  obtain ⟨later', -, hrun'⟩ :=
    other.yields_bind limit ht' (other.view.agreesOn_refl table schema) w' hw'
  exact ⟨_, later, later', hrun, hrun'⟩

theorem isTrigger_inBounds {t : Trigger} (h : around.IsTrigger site w table t later) :
    (t.keys.start < t.keys.stop ∧ t.keys.stop ≤ 128) ∧
      t.velocities.start < t.velocities.stop ∧ t.velocities.stop ≤ 100 := by
  obtain ⟨w₁, w₂, w₃, -, hkeys, hvelocities, -⟩ := h
  constructor
  · refine hkeys.holds (Q := fun range => range.start < range.stop ∧ range.stop ≤ 128) (by decide) ?_
    intro w v range later hrange
    exact ⟨hrange.ordered.1, Int.ofNat_le.mp hrange.ordered.2⟩
  · refine hvelocities.holds (Q := fun range => range.start < range.stop ∧ range.stop ≤ 100)
      (by decide) ?_
    intro w v range later hrange
    exact ⟨hrange.ordered.1, Int.ofNat_le.mp hrange.ordered.2⟩

theorem isRegion_inBounds {r : Region} (h : around.IsRegion site w table r later) : r.InBounds := by
  obtain ⟨w₁, w₂, hfile, htrigger, hoptions⟩ := h
  have hwhen := htrigger.holds (Q := fun t => (t.keys.start < t.keys.stop ∧ t.keys.stop ≤ 128) ∧
      t.velocities.start < t.velocities.stop ∧ t.velocities.stop ≤ 100) (by decide) <| by
    rintro w v t later ⟨id, -, ht⟩
    exact isTrigger_inBounds ht
  refine ⟨?_, hwhen.1, hwhen.2, ?_⟩
  · refine hfile.holds (Q := fun f => f.rootKey ≤ 127) ?_
    rintro - - f - ⟨id, -, v₁, v₂, -, hrootKey, -⟩
    refine hrootKey.holds (Q := fun key => key ≤ 127) ?_
    rintro - - key - ⟨⟨-, hle⟩, -⟩
    exact hle
  · have hnone : ∀ range ∈ (none : Option ValueRange), range.start < range.stop ∧ range.stop ≤ 100 :=
      nofun
    refine hoptions.holds (Q := fun o => ∀ range ∈ o.timbre, range.start < range.stop ∧
      range.stop ≤ 100) hnone ?_
    rintro v₀ v options later ⟨id, -, v₁, v₂, htimbre, -⟩
    refine htimbre.holds (Q := fun o => ∀ range ∈ o, range.start < range.stop ∧ range.stop ≤ 100)
      hnone ?_
    rintro w v - later ⟨range, rfl, hrange⟩ _ ⟨⟩
    exact ⟨hrange.ordered.1, Int.ofNat_le.mp hrange.ordered.2⟩

/-- The binder accepts exactly the tables that describe a region, and makes that
region of them; its numbers are in bounds, and nothing but the declared fields
matters. -/
theorem bind_region_iff (limit table : ℕ) :
    (∀ around site w later r, (∃ values,
        (Binding.bind Libraries.reader limit table .region site w).finish around =
          (later, .gives (.ok values)) ∧ values.toRegion = r) ↔
      around.IsRegion site w table r later) ∧
    (∀ (around : Surroundings) site w later r, around.IsRegion site w table r later → r.InBounds) ∧
    ∀ (R other : Reading) w w', R.kept w → other.kept w' → R.reach table → other.reach table →
      R.view.AgreesOn other.view table .region → ∃ outcome later later',
        (Binding.bind Libraries.reader limit table .region R.site w).finish R.around =
            (later, .gives outcome) ∧
          (Binding.bind Libraries.reader limit table .region other.site w').finish other.around =
            (later', .gives outcome) := by
  refine ⟨?_, ?_, ?_⟩
  · intro around site w later r
    simp only [gives_bind]
    exact isRegion_iff.symm
  · intro around site w later r h
    exact isRegion_inBounds h
  · intro R other w w' hw hw' ht ht' h
    exact bind_congr hw hw' ht ht' h

end Binding

/-! ## A piano -/

namespace Piano

def tableOf (entries : List (String × Value)) : Table :=
  entries.foldl (fun t entry => t.set (.ofString entry.1) entry.2) {}

/-- A region of one looped file; if painted, it has a colour, which no schema declares. -/
def world (painted : Bool) : World where
  heap := { tables := #[{},
    tableOf ([("file", .table 2)] ++ if painted then [("colour", .ofString "red")] else []),
    tableOf [("path", .ofString "piano.wav"), ("root_key", .ofNat 62), ("loop", .table 3)],
    tableOf [("start_frame", .ofNat 24000), ("end_frame", .int (-1))]] }
  build := ⟨"piano.lua", 100, []⟩
  watchdog := { limit := 0 }

def region : Region where
  file := ⟨⟨"piano.wav"⟩, 62, some ⟨24000, -1, 0, false⟩⟩

/-- Calls end at once, and there is memory. -/
def surroundings : Surroundings where
  call w _ _ := (w, .ok [])
  provide w _ := (w, true)

/-- Nothing in this world runs code. -/
theorem inert (painted : Bool) : (world painted).Inert fun v => ∃ id, v = .table id :=
  World.inert_of_noMetatables (by cases painted <;> decide +kernel)

def shows (answer : Except String Value) (v : Value) : Bool :=
  match answer, v with
  | .ok .nil, .nil => true
  | .ok (.number (.int a)), .number (.int b) => a = b
  | .ok (.text a), .text b => a.data = b.data
  | .ok (.table a), .table b => a = b
  | _, _ => false

theorem eq_of_shows {answer : Except String Value} {v : Value} (h : shows answer v = true) :
    answer = .ok v := by
  unfold shows at h
  split at h <;> simp_all [ByteArray.ext_iff]

/-- The declared fields that get looked up. -/
def fields : List (ℕ × String × Value) :=
  [(1, "file", .table 2), (1, "trigger_criteria", .nil), (1, "options", .nil),
    (2, "path", .ofString "piano.wav"), (2, "root_key", .ofNat 62), (2, "loop", .table 3),
    (3, "start_frame", .ofNat 24000), (3, "end_frame", .int (-1)), (3, "crossfade_frames", .nil),
    (3, "ping_pong", .nil)]

theorem answers (painted : Bool) : ∀ field ∈ fields,
    (world painted).answer {} field.1 field.2.1 = .ok field.2.2 := by
  have hshows : ∀ field ∈ fields,
      shows ((world painted).answer {} field.1 field.2.1) field.2.2 = true := by
    cases painted <;> decide +kernel
  exact fun field hmem => eq_of_shows (hshows field hmem)

theorem agrees : ((world false).view {}).AgreesOn ((world true).view {}) 1 .region := by
  have hanswers := answers
  simp only [fields, List.forall_mem_cons] at hanswers
  simp [Schema.region, Schema.regionFile, Schema.sampleLoop, View.AgreesOn, View.AgreesOnFields,
    View.AgreesOnField, View.AgreesOnKind, World.view, hanswers]

/-- The region that an outcome makes. -/
def made? (outcome : World × Conclusion (Except BindError Values)) : Option Region :=
  match outcome.2 with
  | .gives (.ok values) => some values.toRegion
  | _ => none

theorem gives_of_made {outcome : World × Conclusion (Except BindError Values)} {r : Region}
    (h : made? outcome = some r) :
    ∃ values, outcome = (outcome.1, .gives (.ok values)) ∧ values.toRegion = r := by
  obtain ⟨later, (_ | values) | e | _⟩ := outcome
  · cases h
  · exact ⟨values, rfl, Option.some.inj h⟩
  · cases h
  · cases h

end Piano

namespace Binding

/-- The colour of a piano has no influence. -/
theorem bind_region_iff_piano :
    (∃ later, Piano.surroundings.IsRegion {} (Piano.world false) 1 Piano.region later) ∧
    Piano.region.InBounds ∧
    ∃ outcome later later',
      (Binding.bind Libraries.reader 100 1 .region {} (Piano.world false)).finish
          Piano.surroundings = (later, .gives outcome) ∧
        (Binding.bind Libraries.reader 100 1 .region {} (Piano.world true)).finish
          Piano.surroundings = (later', .gives outcome) := by
  obtain ⟨hiff, hbounds, hcongr⟩ := bind_region_iff 100 1
  have hmade : Piano.made? ((Binding.bind Libraries.reader 100 1 .region {}
      (Piano.world false)).finish Piano.surroundings) = some Piano.region := by
    decide +kernel
  have hregion := (hiff _ _ _ _ _).mp (Piano.gives_of_made hmade)
  refine ⟨⟨_, hregion⟩, hbounds _ _ _ _ _ hregion, ?_⟩
  exact hcongr ((Piano.inert false).reading Piano.surroundings {} ⟨"piano.lua", 100, []⟩)
    ((Piano.inert true).reading Piano.surroundings {} ⟨"piano.lua", 100, []⟩) _ _ rfl rfl ⟨1, rfl⟩
    ⟨1, rfl⟩ Piano.agrees

end Binding

end Script

end Multisample
