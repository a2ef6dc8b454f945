import Mathlib.Data.List.Fold
import Mathlib.Data.List.MinMax
import Mathlib.Order.Interval.Finset.Nat
import Multisample.Library.Preparation
import Multisample.Playback.Selection
import Multisample.Proofs.Library.KeyRanges

/-!
# Regions that answer a note

Which regions sound is a matter of their ranges and of whose turn it is.  The
turns of an instrument go round as far as its highest round-robin index, which
preparation counts, so that every region with an index comes up once in a round.
-/

namespace Multisample

/-! ## Answers -/

/-- A region that answers an event when the round robin stands at `turn`. -/
structure Region.Answers (r : Region) (kind : TriggerEvent) (key velocity timbre turn : ℕ) :
    Prop where
  kind : r.trigger.event = kind
  key : r.trigger.keys.start ≤ key ∧ key < r.trigger.keys.stop
  velocity : r.trigger.velocities.start ≤ velocity ∧ velocity < r.trigger.velocities.stop
  timbre : ∀ range ∈ r.options.timbre, range.start ≤ timbre ∧ timbre < range.stop
  turn : ∀ index ∈ r.trigger.roundRobin, index = turn

namespace Selection

theorem admits_iff {cycle : ℕ} {r : Region} {e : NoteEvent} : admits cycle r e = true ↔
    r.Answers e.kind e.key e.velocity e.timbre (e.roundRobin % cycle) := by
  simp only [admits, Bool.and_eq_true, beq_iff_eq, ValueRange.contains_iff, Option.all_eq_true]
  constructor
  · rintro ⟨⟨⟨⟨hkind, hkey⟩, hvelocity⟩, hturn⟩, htimbre⟩
    exact ⟨hkind, hkey, hvelocity, htimbre, fun index hindex => (hturn index hindex).symm⟩
  · rintro ⟨hkind, hkey, hvelocity, htimbre, hturn⟩
    exact ⟨⟨⟨⟨hkind, hkey⟩, hvelocity⟩, fun index hindex => (hturn index hindex).symm⟩, htimbre⟩

open Classical in
/-- The places of the regions that answer, from the first to the last. -/
noncomputable def answering (i : Instrument) (kind : TriggerEvent)
    (key velocity timbre turn : ℕ) : List ℕ :=
  (List.range i.regions.length).filter fun index =>
    ∃ r, i.regions[index]? = some r ∧ r.Answers kind key velocity timbre turn

/-- What an event triggers are the first of the regions that answer it. -/
theorem select_regions {σ : Type} [Elementary σ] (i : Instrument) (e : NoteEvent) :
    (select i e : List (Triggered σ)).map Triggered.region =
      (answering i e.kind e.key e.velocity e.timbre (e.roundRobin % cycle i)).take limit := by
  have hplaces : (i.regions.zipIdx.filter fun place => admits (cycle i) place.1 e).map Prod.snd =
      answering i e.kind e.key e.velocity e.timbre (e.roundRobin % cycle i) := by
    rw [answering, List.range_eq_range', ← List.zipIdx_map_snd 0 i.regions, List.filter_map]
    refine congrArg (List.map Prod.snd) (List.filter_congr ?_)
    rintro ⟨r, index⟩ hmem
    have hget : i.regions[index]? = some r := List.mem_zipIdx_iff_getElem?.mp hmem
    rw [Bool.eq_iff_iff, admits_iff]
    simp [hget]
  rw [← hplaces, ← List.map_take]
  show (List.map _ (kept i e)).map Triggered.region = (kept i e).map Prod.snd
  rw [List.map_map]
  rfl

/-- In every round of notes each turn comes up once. -/
theorem existsUnique_turn {rounds turn : ℕ} (h : turn < rounds) (first : ℕ) :
    ∃! n, (first ≤ n ∧ n < first + rounds) ∧ n % rounds = turn := by
  obtain ⟨n, hn, hturn⟩ : ∃ n ∈ Finset.Ico first (first + rounds), n % rounds = turn := by
    rw [← Finset.mem_image, Nat.image_Ico_mod]
    exact Finset.mem_range.mpr h
  refine ⟨n, ⟨Finset.mem_Ico.mp hn, hturn⟩, fun m ⟨hm, hmturn⟩ => ?_⟩
  exact Nat.mod_injOn_Ico first rounds (Finset.mem_Ico.mpr hm) hn (hmturn.trans hturn.symm)

end Selection

/-! ## Prepared instruments -/

theorem KeyMap.apply_roundRobin (i : Instrument) :
    (KeyMap.apply i).regions.map (fun r => r.trigger.roundRobin) =
      i.regions.map fun r => r.trigger.roundRobin :=
  map_apply (fun _ _ => rfl) i

/-- Preparation counts the round robin up to the highest index there is. -/
theorem Instrument.roundRobin_le_of_prepare {i : Instrument} {r : Region} {index : ℕ}
    (hr : r ∈ i.prepare.regions) (hindex : index ∈ r.trigger.roundRobin) :
    index ≤ i.prepare.maxRoundRobin := by
  have hmem : some index ∈ i.regions.map fun r => r.trigger.roundRobin := by
    have hkept : i.prepare.regions.map (fun r => r.trigger.roundRobin) =
        i.regions.map fun r => r.trigger.roundRobin := KeyMap.apply_roundRobin _
    exact hkept ▸ List.mem_map.mpr ⟨r, hr, hindex⟩
  obtain ⟨s, hs, hsome⟩ := List.mem_map.mp hmem
  have hindices : index ∈ i.regions.filterMap fun r => r.trigger.roundRobin :=
    List.mem_filterMap.mpr ⟨s, hs, hsome⟩
  show index ≤ (i.regions.filterMap fun r => r.trigger.roundRobin).foldl max 0
  rw [List.foldl_eq_foldr]
  exact List.le_max_of_le hindices le_rfl

end Multisample
