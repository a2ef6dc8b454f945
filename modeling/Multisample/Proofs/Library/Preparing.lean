import Mathlib.Data.List.Forall2
import Multisample.Proofs.Library.KeyRanges
import Multisample.Proofs.Library.Names

/-!
# A prepared library is prepared

What is filled in depends on nothing that is filled in: keys are handed out by
groups and root keys, which they leave alone, and so are the paths and the
round-robin indices of the regions.  So preparing a library again changes
nothing, and preparing it once changes nothing else.
-/

namespace Multisample

/-! ## Keys -/

namespace KeyMap

/-- Whoever has keys is in the group that it was in, with the root that it had. -/
theorem members_apply (i : Instrument) (g : String) :
    members (apply i).regions g = members i.regions g := by
  refine members_ext fun m => ?_
  obtain ⟨keys, hkeys⟩ := exists_getElem?_apply i m.index
  rw [mem_members, mem_members, hkeys]
  constructor
  · rintro ⟨s, hs, hg, hroot⟩
    obtain ⟨r, hr, rfl⟩ := Option.map_eq_some_iff.mp hs
    exact ⟨r, hr, hg, hroot⟩
  · rintro ⟨r, hr, hg, hroot⟩
    exact ⟨r.withKeys keys, Option.map_eq_some_iff.mpr ⟨r, hr, rfl⟩, hg, hroot⟩

theorem share_apply (i : Instrument) (g : String) :
    share (apply i).regions g = share i.regions g := by
  rw [share, share, members_apply]

theorem apply_apply (i : Instrument) : apply (apply i) = apply i := by
  have hregions : (apply (apply i)).regions = (apply i).regions := by
    refine List.ext_getElem? fun index => ?_
    by_cases hmember : ∃ s g, (apply i).regions[index]? = some s ∧ group? s = some g
    · obtain ⟨s, g, hs, hg⟩ := hmember
      have hkeys : (index, s.trigger.keys) ∈ share (apply i).regions g :=
        share_apply i g ▸ mem_share_of_getElem?_apply hs hg
      rw [getElem?_apply_of_group hs hg hkeys, hs, Region.withKeys]
    · refine getElem?_apply_of_unassigned fun s hs => ?_
      exact Option.eq_none_iff_forall_ne_some.mpr fun g hg => hmember ⟨s, g, hs, hg⟩
  calc apply (apply i) = { apply i with regions := (apply (apply i)).regions } := rfl
    _ = apply i := by rw [hregions]

end KeyMap

/-! ## Instruments -/

namespace Instrument

/-- What is filled in of an instrument, and that nothing else is. -/
structure Completes (i later : Instrument) : Prop where
  named : ∀ path, i.waveform = some path → later.waveform = some path
  shown : i.waveform = none → later.waveform = i.regions.head?.map fun r => r.file.path
  roundRobin :
    (∀ r ∈ i.regions, r.trigger.roundRobin = none) ∧ later.maxRoundRobin = 0 ∨
      (∃ r ∈ i.regions, r.trigger.roundRobin = some later.maxRoundRobin) ∧
        ∀ r ∈ i.regions, ∀ n ∈ r.trigger.roundRobin, n ≤ later.maxRoundRobin
  count : later.regions.length = i.regions.length
  ungrouped : ∀ (index : ℕ) r, i.regions[index]? = some r →
    r.options.autoMapGroup = none ∨ r.options.autoMapGroup = some "" →
      later.regions[index]? = some r
  grouped : ∀ (index : ℕ) r g, i.regions[index]? = some r →
    r.options.autoMapGroup = some g → g ≠ "" →
      ∃ keys, (index, keys) ∈ KeyMap.share i.regions g ∧
        later.regions[index]? = some (r.withKeys keys)
  rest : { later with
    waveform := i.waveform, maxRoundRobin := i.maxRoundRobin, regions := i.regions } = i

/-- The highest index is the one of a region, unless no region has one. -/
theorem highestRoundRobin_cases (i : Instrument) :
    (∀ r ∈ i.regions, r.trigger.roundRobin = none) ∧ i.highestRoundRobin = 0 ∨
      (∃ r ∈ i.regions, r.trigger.roundRobin = some i.highestRoundRobin) ∧
        ∀ r ∈ i.regions, ∀ n ∈ r.trigger.roundRobin, n ≤ i.highestRoundRobin := by
  have hfold : i.highestRoundRobin =
      (i.regions.filterMap fun r => r.trigger.roundRobin).max?.getD 0 := by
    rw [highestRoundRobin, List.foldl_max, Nat.zero_max]
  rw [hfold]
  cases hmax : (i.regions.filterMap fun r => r.trigger.roundRobin).max? with
  | none =>
      rw [List.max?_eq_none_iff, List.filterMap_eq_nil_iff] at hmax
      exact Or.inl ⟨hmax, rfl⟩
  | some highest =>
      rw [List.max?_eq_some_iff] at hmax
      exact Or.inr ⟨List.mem_filterMap.mp hmax.1,
        fun r hr n hn => hmax.2 n (List.mem_filterMap.mpr ⟨r, hr, hn⟩)⟩

theorem prepare_eq (i : Instrument) : i.prepare = { i with
    waveform := i.waveform <|> i.regions.head?.map fun r => r.file.path
    maxRoundRobin := i.highestRoundRobin
    regions := (KeyMap.apply i).regions } := rfl

theorem completes_prepare (i : Instrument) : i.Completes i.prepare where
  named path hpath := by
    rw [prepare_eq, hpath]
    rfl
  shown hnone := by
    rw [prepare_eq, hnone]
    rfl
  roundRobin := i.highestRoundRobin_cases
  count := by
    have hlength := congrArg List.length (KeyMap.map_apply (f := fun _ => ()) (fun _ _ => rfl) i)
    rwa [List.length_map, List.length_map] at hlength
  ungrouped index r hr hg := by
    refine (KeyMap.getElem?_apply_of_unassigned fun s hs => ?_).trans hr
    exact Option.some.inj (hr.symm.trans hs) ▸ KeyMap.group?_eq_none_iff.mpr hg
  grouped index r g hr hg hne := by
    have hgroup := KeyMap.group?_eq_some_iff.mpr ⟨hg, hne⟩
    obtain ⟨keys, hkeys⟩ := KeyMap.mem_share_iff.mpr ⟨r, hr, hgroup⟩
    exact ⟨keys, hkeys, KeyMap.getElem?_apply_of_group hr hgroup hkeys⟩
  rest := rfl

theorem withWaveform_prepare (i : Instrument) : i.prepare.withWaveform = i.prepare := by
  have hpaths := KeyMap.map_apply (f := fun r => r.file.path) (fun _ _ => rfl) i
  have hfirst : i.prepare.regions.head?.map (fun r => r.file.path) =
      i.regions.head?.map fun r => r.file.path := by
    rw [← List.head?_map, ← List.head?_map]
    exact congrArg List.head? hpaths
  have hshown : (i.prepare.waveform <|> i.prepare.regions.head?.map fun r => r.file.path) =
      i.prepare.waveform := by
    rw [hfirst, prepare_eq]
    cases i.waveform <;> cases i.regions.head? <;> rfl
  rw [withWaveform, hshown]

theorem withRoundRobin_prepare (i : Instrument) : i.prepare.withRoundRobin = i.prepare := by
  have hindices := KeyMap.map_apply (f := fun r => r.trigger.roundRobin) (fun _ _ => rfl) i
  have hhighest : i.prepare.highestRoundRobin = i.highestRoundRobin := by
    have hset := congrArg (List.filterMap id) hindices
    rw [List.filterMap_map, List.filterMap_map] at hset
    exact congrArg (List.foldl max 0) hset
  rw [withRoundRobin, hhighest]
  rfl

theorem prepare_prepare (i : Instrument) : i.prepare.prepare = i.prepare := by
  calc i.prepare.prepare = KeyMap.apply i.prepare.withWaveform.withRoundRobin := rfl
    _ = KeyMap.apply i.prepare := by rw [withWaveform_prepare, withRoundRobin_prepare]
    _ = i.prepare := KeyMap.apply_apply i.withWaveform.withRoundRobin

end Instrument

/-! ## Libraries -/

namespace Library

/-- What is filled in of a library, instrument by instrument, and that nothing else is. -/
structure Completes (l later : Library) : Prop where
  instruments : List.Forall₂ Instrument.Completes l.instruments later.instruments
  rest : { later with instruments := l.instruments } = l

/-- A library with unique names can be prepared, and prepared again it is the same.  Only the
waveforms, the lengths of the round robins and the keys of the regions in groups are filled in. -/
theorem prepare_settles {l : Library} (hinstruments : l.instrumentNames.Nodup)
    (hresponses : l.responseNames.Nodup) :
    ∃ prepared, l.prepare = .ok prepared ∧ prepared.prepare = .ok prepared ∧
      l.Completes prepared := by
  have hleads : l.NamesLead := namesLead_iff.mpr ⟨hinstruments, hresponses⟩
  have hagain : (l.instruments.map Instrument.prepare).map Instrument.prepare =
      l.instruments.map Instrument.prepare := by
    rw [List.map_map]
    exact List.map_congr_left fun i _ => i.prepare_prepare
  refine ⟨_, prepare_eq_ok hleads, ?_, ?_, rfl⟩
  · rw [prepare_eq_ok (prepares hleads).leads, hagain]
  · exact List.forall₂_map_right_iff.mpr (List.forall₂_same.mpr fun i _ => i.completes_prepare)

/-- A piano, two of its three recordings mapped to the keyboard, and a harp of one string. -/
def duet : Library where
  info := { name := "Duet" }
  scriptPath := "/libs/duet/floe.lua"
  instruments := [
    { name := "Piano"
      regions := [
        { file := { path := ⟨"low.wav"⟩, rootKey := 36 }
          options := { autoMapGroup := some "keys" } },
        { file := { path := ⟨"high.wav"⟩, rootKey := 84 }, trigger := { roundRobin := some 0 }
          options := { autoMapGroup := some "keys" } },
        { file := { path := ⟨"soft.wav"⟩, rootKey := 84 }, trigger := { roundRobin := some 1 } }] },
    { name := "Harp", waveform := some ⟨"harp.wav"⟩
      regions := [{ file := { path := ⟨"string.wav"⟩ } }] }]

theorem prepare_settles_duet : duet.instrumentNames.Nodup ∧ duet.responseNames.Nodup ∧
    ∃ prepared, duet.prepare = .ok prepared ∧ prepared.prepare = .ok prepared ∧
      duet.Completes prepared :=
  ⟨by decide, by decide, prepare_settles (by decide) (by decide)⟩

end Library

end Multisample
