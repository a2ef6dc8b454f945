import Multisample.Proofs.Script.MergedTables
import Multisample.Proofs.Script.Sessions

/-!
# Calls that merge tables

A script merges two tables by a call.  The call is tried again once memory has been
asked for, and asking for it changes nothing but a count.  So there are three ends:
the tables are merged, they lead on too far, or there is a limit to memory and it is
reached.
-/

namespace Multisample.Script

open Builtins Act

/-! ## Merging with any count of bytes -/

namespace Heap

variable {h : Heap} {base upper id : ℕ}

/-- From one of two tables, some table is reached by more than 32 steps along keys. -/
def LeadsFar (h : Heap) (base upper : ℕ) : Prop :=
  ∃ steps last, 32 < steps ∧ (h.Leads base steps last ∨ h.Leads upper steps last)

theorem fits_iff_not_leadsFar :
    h.Fits (maxNesting + 1) (.table base) ∧ h.Fits (maxNesting + 1) (.table upper) ↔
      ¬ h.LeadsFar base upper := by
  constructor
  · rintro ⟨hbase, hupper⟩ ⟨steps, last, hfar, hleads | hleads⟩
    · exact absurd (hbase base rfl steps last hleads) (Nat.not_lt.mpr hfar)
    · exact absurd (hupper upper rfl steps last hleads) (Nat.not_lt.mpr hfar)
  · intro hnear
    constructor
    · rintro _ ⟨⟩ steps last hleads
      exact Nat.not_le.mp fun hfar => hnear ⟨steps, last, hfar, .inl hleads⟩
    · rintro _ ⟨⟩ steps last hleads
      exact Nat.not_le.mp fun hfar => hnear ⟨steps, last, hfar, .inr hleads⟩

/-- What a heap counts as used is not seen in its tables. -/
theorem likeness_used (h : Heap) (used : ℕ) : Likeness h { h with used } Eq :=
  likeness_eq h

theorem Sound.merge (hs : h.Sound) (hbase : base < h.tables.size) (hupper : upper < h.tables.size)
    (used : ℕ) :
    Concludes
      (fun m => h.Keeps m.1 (fun _ => True) ∧ ¬ h.LeadsFar base upper ∧
        IsMerge h m.1 h.tables.size (.table base) (.table upper) (.table m.2))
      (h.LeadsFar base upper) (h.limit ≠ 0) (({ h with used } : Heap).merge base upper) := by
  have hlike := likeness_used h used
  have hsound : ({ h with used } : Heap).Sound := ⟨hs.keys, hs.tables⟩
  have hfits : ∀ id, h.Fits (maxNesting + 1) (.table id) ↔
      ({ h with used } : Heap).Fits (maxNesting + 1) (.table id) := fun id => hlike.fits rfl
  have hmerged := mergesWithin (maxNesting + 1) { h with used } base (some upper) hsound hbase
    fun id hid => Option.some.inj hid ▸ hupper
  refine hmerged.imp ?_ ?_
  · rintro ⟨later, merged⟩ ⟨hm, hnear⟩
    refine ⟨⟨hm.keeps.size, hm.keeps.limit, hm.keeps.table⟩, ?_, ?_⟩
    · exact fits_iff_not_leadsFar.mp ⟨(hfits base).mpr hnear.1, (hfits upper).mpr hnear.2⟩
    · exact hm.isMerge.moved hlike hlike (keeps_self later _) (Nat.le_refl _) rfl rfl
  · refine fun hdeep => Classical.byContradiction fun hnear => hdeep ?_
    obtain ⟨hfitsBase, hfitsUpper⟩ := fits_iff_not_leadsFar.mpr hnear
    exact ⟨(hfits base).mp hfitsBase, (hfits upper).mp hfitsUpper⟩

end Heap

/-! ## Calls -/

/-- How a call to merge two tables ends. -/
inductive MergeEnds (h : Heap) (base upper : ℕ) (later : Heap) :
    Conclusion (List Value) → Prop where
  | merged {id : ℕ} (hnear : ¬ h.LeadsFar base upper)
      (hmerge : h.IsMerge later h.tables.size (.table base) (.table upper) (.table id)) :
      MergeEnds h base upper later (.gives [.table id])
  | tooDeep (hfar : h.LeadsFar base upper) :
      MergeEnds h base upper later (.raises
        (.of "extend_table" s!"tables are nested more than {Heap.maxNesting} levels deep"))
  | refused (hlimit : h.limit ≠ 0) : MergeEnds h base upper later (.raises .refused)
  | cutOff (hlimit : h.limit ≠ 0) : MergeEnds h base upper later .cutOff

theorem keeps_counting (w : World) (used : ℕ) :
    w.heap.Keeps (w.counting used).heap fun _ => True :=
  ⟨Nat.le_refl _, rfl, fun _ _ _ => rfl⟩

namespace Act

variable {around : Surroundings} {site : Site} {w : World} {base upper used : ℕ}

/-- The act, started with so many bytes in use, ends as a call to merge two tables does;
it changes nothing but the heap, and no table that there was. -/
def EndsMerging (around : Surroundings) (site : Site) (w : World) (base upper used : ℕ)
    (x : Act (List Value)) : Prop :=
  ∃ heap conclusion,
    Ends around site (w.counting used) x { w with heap } conclusion ∧
      w.heap.Keeps heap (fun _ => True) ∧ MergeEnds w.heap base upper heap conclusion

/-- Merging is tried; `again` is what happens if memory is refused. -/
theorem endsMerging_once (hs : w.heap.Sound) (hbase : base < w.heap.tables.size)
    (hupper : upper < w.heap.tables.size) {again : Act (List Value)}
    (hagain : w.heap.limit ≠ 0 → EndsMerging around site w base upper used again) :
    EndsMerging around site w base upper used (do
      match ← Libraries.mergeOnce base upper with
      | .ok id => return [.table id]
      | .error .tooDeep => Libraries.extendTable.tooDeep
      | .error .refused => again) := by
  have hmerge := hs.merge hbase hupper used
  cases hresult : (w.counting used).heap.merge base upper with
  | ok merged =>
      obtain ⟨hkeeps, hnear, hmerge⟩ := hresult ▸ hmerge
      exact ⟨merged.1, _, (ends_mergeOnce hresult).bind rfl, hkeeps, .merged hnear hmerge⟩
  | error e =>
      have htried : Ends around site (w.counting used) (Libraries.mergeOnce base upper)
          (w.counting used) (.gives (.error e)) := ends_mergeOnce_error hresult
      have hfault := hresult ▸ hmerge
      cases e with
      | tooDeep => exact ⟨_, _, htried.bind rfl, keeps_counting w used, .tooDeep hfault⟩
      | refused =>
          obtain ⟨heap, conclusion, hends, hrest⟩ := hagain hfault
          exact ⟨heap, conclusion, htried.bind hends, hrest⟩

theorem endsMerging_reserve
    (hmemory : ∀ w bytes, ∃ used, (around.provide w bytes).1 = w.counting used)
    (hlimit : w.heap.limit ≠ 0) (bytes : ℕ) {f : Unit → Act (List Value)}
    (hf : ∀ used, EndsMerging around site w base upper used (f ())) :
    EndsMerging around site w base upper used (reserve bytes >>= f) := by
  obtain ⟨counted, hcounted⟩ := hmemory (w.counting used) bytes
  cases hgranted : (around.provide (w.counting used) bytes).2 with
  | true =>
      have hreserve : Ends around site (w.counting used) (reserve bytes) (w.counting counted)
          (.gives ()) := hcounted ▸ ends_reserve hgranted
      obtain ⟨heap, conclusion, hends, hrest⟩ := hf counted
      exact ⟨heap, conclusion, hreserve.bind hends, hrest⟩
  | false =>
      have hreserve : Ends around site (w.counting used) (reserve bytes) (w.counting counted)
          .cutOff := hcounted ▸ ends_reserve_cutOff hgranted
      exact ⟨_, _, hreserve.bind_cutOff f, keeps_counting w counted, .cutOff hlimit⟩

theorem endsMerging_extendTable (hs : w.heap.Sound) (hbase : base < w.heap.tables.size)
    (hupper : upper < w.heap.tables.size)
    (hmemory : ∀ w bytes, ∃ used, (around.provide w bytes).1 = w.counting used)
    (more : List Value) :
    EndsMerging around site w base upper w.heap.used
      (Libraries.extendTable (.table base :: .table upper :: more)) := by
  refine endsMerging_once hs hbase hupper fun hlimit => ?_
  refine endsMerging_reserve hmemory hlimit _ fun used => ?_
  refine endsMerging_once hs hbase hupper fun _ => ?_
  exact ⟨_, _, rfl, keeps_counting w used, .refused hlimit⟩

/-- Merging two tables is a deep merge within bounds.  Whatever the tables hold, be it each other,
the call concludes.  Unless memory runs out, which takes a limit, it succeeds if neither table leads
on by more than 32 steps, and else tells that they are nested too deep.  The result is the merge in
new tables, and no table that there was is changed. -/
theorem extendTable_merges_deeply (hs : w.heap.Sound) (hbase : base < w.heap.tables.size)
    (hupper : upper < w.heap.tables.size) (htime : w.checkWatchdog.watchdog.tripped = none)
    (hmemory : ∀ w bytes, ∃ used, (around.provide w bytes).1 = w.counting used)
    (more : List Value) :
    ∃ later conclusion,
      Ends around site w (guarded (Libraries.extendTable (.table base :: .table upper :: more)))
        later conclusion ∧
      (∀ id < w.heap.tables.size, later.heap.table id = w.heap.table id) ∧
      (w.heap.limit = 0 → conclusion ≠ .raises .refused ∧ conclusion ≠ .cutOff) ∧
      (conclusion ≠ .raises .refused → conclusion ≠ .cutOff →
        ((∃ results, conclusion = .gives results) ↔ ¬ w.heap.LeadsFar base upper) ∧
        (w.heap.LeadsFar base upper → conclusion = .raises (.thrown (.failure
          "floe.extend_table: tables are nested more than 32 levels deep"))) ∧
        ∀ results, conclusion = .gives results → ∃ merged, results = [.table merged] ∧
          w.heap.IsMerge later.heap w.heap.tables.size (.table base) (.table upper)
            (.table merged)) := by
  obtain ⟨heap, conclusion, hends, hkeeps, hconclusion⟩ :=
    endsMerging_extendTable hs hbase hupper hmemory more
  obtain ⟨watchdog, hguarded⟩ := Ends.guarded hends htime
  refine ⟨_, conclusion, hguarded, fun id hid => hkeeps.table id hid trivial, ?_⟩
  cases hconclusion with
  | merged hnear hmerge =>
      refine ⟨fun _ => ⟨nofun, nofun⟩, fun _ _ => ⟨⟨fun _ => hnear, fun _ => ⟨_, rfl⟩⟩, ?_, ?_⟩⟩
      · exact fun hfar => absurd hfar hnear
      · rintro _ ⟨⟩
        exact ⟨_, rfl, hmerge⟩
  | tooDeep hfar =>
      refine ⟨fun _ => ⟨nofun, nofun⟩, fun _ _ => ⟨⟨nofun, ?_⟩, fun _ => rfl, nofun⟩⟩
      exact fun hnear => absurd hfar hnear
  | refused hlimit =>
      exact ⟨fun hnone => absurd hnone hlimit, fun hgiven _ => absurd rfl hgiven⟩
  | cutOff hlimit =>
      exact ⟨fun hnone => absurd hnone hlimit, fun _ hgiven => absurd rfl hgiven⟩

end Act

/-! ## A table merged with itself -/

namespace Orchestra

theorem mem_foldl_set {entries : List (String × Value)} {t : Table} {e : Value × Value}
    (he : e ∈ (entries.foldl (fun t entry => t.set (.ofString entry.1) entry.2) t).toList) :
    e ∈ t.toList ∨ ∃ x ∈ entries, e = (.ofString x.1, x.2) := by
  induction entries generalizing t with
  | nil => exact Or.inl he
  | cons x rest ih =>
      obtain hset | ⟨y, hy, heq⟩ := ih he
      · obtain rfl | ht := Table.mem_toList_set hset
        · exact Or.inr ⟨x, List.mem_cons_self, rfl⟩
        · exact Or.inl ht
      · exact Or.inr ⟨y, List.mem_cons_of_mem x hy, heq⟩

theorem mem_tableOf {entries : List (String × Value)} {e : Value × Value}
    (he : e ∈ (tableOf entries).toList) : ∃ x ∈ entries, e = (.ofString x.1, x.2) :=
  (mem_foldl_set he).resolve_left List.not_mem_nil

/-- What is stored in the tables stands under texts; the only table stored is the fourth one. -/
theorem mem_world {id : ℕ} {e : Value × Value} (he : e ∈ (world.heap.table id).toList) :
    (∃ key, e.1 = .ofString key) ∧ (id = 3 ∧ e.2 = .table 4 ∨ ∀ m, e.2 ≠ .table m) := by
  match id, he with
  | 0, he => exact absurd he List.not_mem_nil
  | 1, he | 2, he | 4, he =>
      obtain ⟨x, hx, rfl⟩ := mem_tableOf he
      refine ⟨⟨_, rfl⟩, Or.inr ?_⟩
      revert x
      simp [Value.ofString, Value.ofNat, Value.int]
  | 3, he =>
      obtain ⟨x, hx, rfl⟩ := mem_tableOf he
      cases List.mem_singleton.mp hx
      exact ⟨⟨_, rfl⟩, Or.inl ⟨rfl, rfl⟩⟩
  | id + 5, he =>
      have hnone : world.heap.table (id + 5) = {} := by simp [world, Heap.table]
      exact absurd (hnone ▸ he) List.not_mem_nil

theorem sound : world.heap.Sound where
  keys id e he := by
    obtain ⟨⟨key, hkey⟩, -⟩ := mem_world he
    rw [hkey]
    rfl
  tables id e he m hm := by
    obtain ⟨-, ⟨-, hvalue⟩ | hplain⟩ := mem_world he
    · cases hvalue.symm.trans hm
      decide
    · exact absurd hm (hplain m)

theorem not_leadsFar : ¬ world.heap.LeadsFar 3 3 := by
  have hfile : world.heap.Fits 32 (.table 4) := by
    refine sound.fits_table.mpr fun e he => ?_
    obtain ⟨-, ⟨hid, -⟩ | hplain⟩ := mem_world he
    · exact absurd hid (by decide)
    · exact fun id hid => absurd hid (hplain id)
  have hregion : world.heap.Fits 33 (.table 3) := by
    refine sound.fits_table.mpr fun e he => ?_
    obtain ⟨-, ⟨-, hvalue⟩ | hplain⟩ := mem_world he
    · exact hvalue ▸ hfile
    · exact fun id hid => absurd hid (hplain id)
  exact Heap.fits_iff_not_leadsFar.mp ⟨hregion, hregion⟩

/-- The tables of a region are merged with themselves: the path is read in a new table. -/
theorem extendTable_merges_deeply_region :
    ∃ later merged file,
      Act.Ends surroundings {} world (guarded (Libraries.extendTable [.table 3, .table 3])) later
        (.gives [.table merged]) ∧
      5 ≤ merged ∧ later.heap.get merged (.ofString "file") = .table file ∧ 5 ≤ file ∧
        later.heap.get file (.ofString "root_key") = .ofNat 62 := by
  have hmemory : ∀ w bytes, ∃ used, (surroundings.provide w bytes).1 = w.counting used :=
    fun w bytes => Machine.State.provide_counting { state with world := w } bytes
  have htable : 3 < world.heap.tables.size := by decide
  have hfile : world.heap.get 3 (.ofString "file") = .table 4 := rfl
  have hroot : world.heap.get 4 (.ofString "root_key") = .ofNat 62 := by
    show ((tableOf [("path", .ofString "violin.wav")]).set (.ofString "root_key") (.ofNat 62)).get
      (.ofString "root_key") = .ofNat 62
    exact Table.get_set_of_reads (Value.reads_self rfl)
  obtain ⟨later, conclusion, hends, -, hlimit, hconclusion⟩ :=
    Act.extendTable_merges_deeply sound htable htable inTime hmemory []
  obtain ⟨hrefused, hcutOff⟩ := hlimit rfl
  obtain ⟨hgives, -, hmerges⟩ := hconclusion hrefused hcutOff
  obtain ⟨results, rfl⟩ := hgives.mpr not_leadsFar
  obtain ⟨merged, rfl, hmerge⟩ := hmerges results rfl
  obtain ⟨_, ⟨⟩, hnew, hentries⟩ := hmerge.of_tables
  have hnested := hentries (.ofString "file")
  rw [hfile] at hnested
  obtain ⟨file, hread, hnewFile, hentriesFile⟩ := hnested.of_tables
  have hkey := hentriesFile (.ofString "root_key")
  rw [hroot] at hkey
  exact ⟨later, merged, file, hends, hnew.notBefore, hread, hnewFile.notBefore,
    hkey.eq_upper nofun nofun⟩

end Orchestra

end Multisample.Script
