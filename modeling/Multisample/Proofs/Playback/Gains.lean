import Mathlib.Algebra.BigOperators.Group.List.Basic
import Mathlib.Algebra.Order.BigOperators.Group.List
import Multisample.Playback.Selection
import Multisample.Proofs.Numeric.Exact

/-!
# Gains of equal power

A region's gain is a product of two weights.  Among the regions that share a
timbre range the squares of the velocity weights add up to one, and among those
that share a velocity range the squares of the timbre weights do.  Both hold for
whatever regions an event triggers.  Where these form a grid of velocity ranges
and timbre ranges, the squares of the gains add up to one altogether.
-/

namespace Multisample.Selection

/-! ## Shares of a row of ranges -/

theorem distance_real (r : ValueRange) (value : ℕ) :
    (distance r value : ℝ) = (min (value - r.start) (r.stop - 1 - value) : ℕ) + 1 := by
  simp only [distance, Scalar.ofNat_real, Scalar.one_real]

theorem distance_pos (r : ValueRange) (value : ℕ) : 0 < (distance r value : ℝ) := by
  rw [distance_real]
  positivity

theorem energy_real (value : ℕ) (ranges : List ValueRange) :
    (energy value ranges : ℝ) = (ranges.map fun r => (distance r value : ℝ) ^ 2).sum := by
  have key : ∀ (rs : List ValueRange) (sum : ℝ),
      rs.foldl (fun sum r => sum + distance r value * distance r value) sum =
        sum + (rs.map fun r => (distance r value : ℝ) ^ 2).sum := by
    intro rs
    induction rs with
    | nil => simp
    | cons r rs ih =>
        intro sum
        rw [List.foldl_cons, ih, List.map_cons, List.sum_cons, sq, add_assoc]
  rw [energy, Scalar.zero_real, key, zero_add]

theorem energy_perm {ranges others : List ValueRange} (h : ranges.Perm others) (value : ℕ) :
    (energy value ranges : ℝ) = energy value others := by
  rw [energy_real, energy_real]
  exact (h.map _).sum_eq

theorem sq_distance_le {value : ℕ} {own : ValueRange} {ranges : List ValueRange}
    (h : own ∈ ranges) : (distance own value : ℝ) ^ 2 ≤ energy value ranges := by
  rw [energy_real]
  refine List.single_le_sum ?_ _ (List.mem_map_of_mem h)
  intro x hx
  obtain ⟨r, -, rfl⟩ := List.mem_map.mp hx
  exact sq_nonneg _

theorem energy_pos {value : ℕ} {own : ValueRange} {ranges : List ValueRange} (h : own ∈ ranges) :
    0 < (energy value ranges : ℝ) :=
  (pow_pos (distance_pos own value) 2).trans_le (sq_distance_le h)

theorem weight_mem_unit {value : ℕ} {own : ValueRange} {ranges : List ValueRange}
    (h : own ∈ ranges) :
    0 < (weight value own ranges : ℝ) ∧ (weight value own ranges : ℝ) ≤ 1 := by
  have hsqrt : 0 < Real.sqrt (energy value ranges) := Real.sqrt_pos.mpr (energy_pos h)
  refine ⟨div_pos (distance_pos own value) hsqrt, (div_le_one hsqrt).mpr ?_⟩
  exact Real.le_sqrt_of_sq_le (sq_distance_le h)

theorem sum_sq_weight {ranges : List ValueRange} (h : ranges ≠ []) (value : ℕ) :
    (ranges.map fun own => (weight value own ranges : ℝ) ^ 2).sum = 1 := by
  obtain ⟨own, hown⟩ := List.exists_mem_of_ne_nil ranges h
  have hpos : 0 < (energy value ranges : ℝ) := energy_pos hown
  have hsq : ∀ r, (weight value r ranges : ℝ) ^ 2 =
      (distance r value : ℝ) ^ 2 * (energy value ranges : ℝ)⁻¹ := by
    intro r
    show (distance r value / Real.sqrt (energy value ranges)) ^ 2 = _
    rw [div_pow, Real.sq_sqrt hpos.le, div_eq_mul_inv]
  simp only [hsq]
  rw [List.sum_map_mul_right, ← energy_real, mul_inv_cancel₀ hpos.ne']

/-! ## Layers of the kept regions -/

/-- The places of the regions with one timbre range, or with none. -/
def withTimbre (hits : List (Region × ℕ)) (timbre : Option ValueRange) : List (Region × ℕ) :=
  hits.filter fun p => p.1.options.timbre == timbre

/-- The places of the regions with one velocity range. -/
def withVelocities (hits : List (Region × ℕ)) (velocities : ValueRange) : List (Region × ℕ) :=
  hits.filter fun p => p.1.trigger.velocities == velocities

theorem mem_withTimbre {hits : List (Region × ℕ)} {timbre : Option ValueRange} {p : Region × ℕ} :
    p ∈ withTimbre hits timbre ↔ p ∈ hits ∧ p.1.options.timbre = timbre := by
  simp [withTimbre]

theorem mem_withVelocities {hits : List (Region × ℕ)} {velocities : ValueRange}
    {p : Region × ℕ} :
    p ∈ withVelocities hits velocities ↔ p ∈ hits ∧ p.1.trigger.velocities = velocities := by
  simp [withVelocities]

/-- A layer is blended when it has several regions and all of them feather. -/
def Blends (layer : List (Region × ℕ)) : Prop :=
  2 ≤ layer.length ∧ ∀ p ∈ layer, p.1.options.feather = true

theorem blends_iff (layer : List (Region × ℕ)) :
    (decide (1 < layer.length) && layer.all fun (other, _) => other.options.feather) = true ↔
      Blends layer := by
  rw [Bool.and_eq_true, decide_eq_true_eq, List.all_eq_true]
  rfl

theorem velocityWeight_of_blends {hits : List (Region × ℕ)} {r : Region}
    (h : Blends (withTimbre hits r.options.timbre)) (velocity : ℕ) :
    (velocityWeight hits r velocity : ℝ) = weight velocity r.trigger.velocities
      ((withTimbre hits r.options.timbre).map fun p => p.1.trigger.velocities) :=
  if_pos ((blends_iff _).mpr h)

theorem velocityWeight_of_not_blends {hits : List (Region × ℕ)} {r : Region}
    (h : ¬ Blends (withTimbre hits r.options.timbre)) (velocity : ℕ) :
    (velocityWeight hits r velocity : ℝ) = 1 :=
  (if_neg (mt (blends_iff _).mp h)).trans Scalar.one_real

theorem sum_sq_velocityWeight {hits : List (Region × ℕ)} {timbre : Option ValueRange}
    (h : Blends (withTimbre hits timbre)) (velocity : ℕ) :
    ((withTimbre hits timbre).map fun p => (velocityWeight hits p.1 velocity : ℝ) ^ 2).sum = 1 := by
  let ranges := (withTimbre hits timbre).map fun p => p.1.trigger.velocities
  have hranges : ranges ≠ [] := by
    intro hnil
    have hlength := h.1
    rw [List.map_eq_nil_iff.mp hnil] at hlength
    exact absurd hlength (by decide)
  have hweights :
      (withTimbre hits timbre).map (fun p => (velocityWeight hits p.1 velocity : ℝ) ^ 2) =
        ranges.map fun own => (weight velocity own ranges : ℝ) ^ 2 := by
    rw [List.map_map]
    refine List.map_congr_left fun p hp => ?_
    obtain ⟨-, rfl⟩ := mem_withTimbre.mp hp
    rw [velocityWeight_of_blends h]
    rfl
  rw [hweights, sum_sq_weight hranges]

theorem velocityWeight_mem_unit {hits : List (Region × ℕ)} {p : Region × ℕ} (hp : p ∈ hits)
    (velocity : ℕ) :
    0 < (velocityWeight hits p.1 velocity : ℝ) ∧ (velocityWeight hits p.1 velocity : ℝ) ≤ 1 := by
  by_cases h : Blends (withTimbre hits p.1.options.timbre)
  · rw [velocityWeight_of_blends h]
    exact weight_mem_unit (List.mem_map_of_mem (mem_withTimbre.mpr ⟨hp, rfl⟩))
  · rw [velocityWeight_of_not_blends h]
    exact ⟨one_pos, le_rfl⟩

theorem velocityLayer_eq (hits : List (Region × ℕ)) (r : Region) :
    velocityLayer hits r =
      (withVelocities hits r.trigger.velocities).filterMap fun p => p.1.options.timbre := by
  rw [withVelocities, List.filterMap_filter]
  rfl

theorem timbreWeight_of_some {r : Region} {own : ValueRange} (h : r.options.timbre = some own)
    (hits : List (Region × ℕ)) (timbre : ℕ) :
    (timbreWeight hits r timbre : ℝ) = weight timbre own (velocityLayer hits r) := by
  rw [timbreWeight, h]

theorem timbreWeight_of_none {r : Region} (h : r.options.timbre = none)
    (hits : List (Region × ℕ)) (timbre : ℕ) : (timbreWeight hits r timbre : ℝ) = 1 := by
  rw [timbreWeight, h]
  exact Scalar.one_real

theorem timbreWeight_mem_unit {hits : List (Region × ℕ)} {p : Region × ℕ} (hp : p ∈ hits)
    (timbre : ℕ) :
    0 < (timbreWeight hits p.1 timbre : ℝ) ∧ (timbreWeight hits p.1 timbre : ℝ) ≤ 1 := by
  cases hown : p.1.options.timbre with
  | none =>
      rw [timbreWeight_of_none hown]
      exact ⟨one_pos, le_rfl⟩
  | some own =>
      rw [timbreWeight_of_some hown, velocityLayer_eq]
      exact weight_mem_unit
        (List.mem_filterMap.mpr ⟨p, mem_withVelocities.mpr ⟨hp, rfl⟩, hown⟩)

/-- The regions of one velocity range that have a timbre range. -/
def timbred (hits : List (Region × ℕ)) (velocities : ValueRange) : List (Region × ℕ) :=
  (withVelocities hits velocities).filter fun p => p.1.options.timbre.isSome

theorem map_filter_isSome {α β γ : Type} {f : α → Option β} {g : α → γ} {w : β → γ} :
    ∀ {xs : List α}, (∀ x ∈ xs, ∀ y, f x = some y → g x = w y) →
      (xs.filter fun x => (f x).isSome).map g = (xs.filterMap f).map w
  | [], _ => rfl
  | x :: xs, h => by
      have ih := map_filter_isSome fun z hz => h z (List.mem_cons_of_mem _ hz)
      cases hx : f x with
      | none => simpa [hx] using ih
      | some y => simpa [hx, h x List.mem_cons_self y hx] using ih

theorem sum_sq_timbreWeight {hits : List (Region × ℕ)} {velocities : ValueRange}
    (h : timbred hits velocities ≠ []) (timbre : ℕ) :
    ((timbred hits velocities).map fun p => (timbreWeight hits p.1 timbre : ℝ) ^ 2).sum = 1 := by
  let ranges := (withVelocities hits velocities).filterMap fun p => p.1.options.timbre
  have hweights : (timbred hits velocities).map (fun p => (timbreWeight hits p.1 timbre : ℝ) ^ 2) =
      ranges.map fun own => (weight timbre own ranges : ℝ) ^ 2 := by
    refine map_filter_isSome fun p hp own hown => ?_
    obtain ⟨-, rfl⟩ := mem_withVelocities.mp hp
    rw [timbreWeight_of_some hown, velocityLayer_eq]
  have hranges : ranges ≠ [] := by
    intro hnil
    rw [hnil, List.map_nil, List.map_eq_nil_iff] at hweights
    exact h hweights
  rw [hweights, sum_sq_weight hranges]

/-! ## Grids -/

/-- Every velocity range that occurs meets every timbre range that occurs once;
either all of the regions have a timbre range or none has. -/
structure Grid (hits : List (Region × ℕ)) : Prop where
  timbre : (∀ p ∈ hits, p.1.options.timbre.isSome = true) ∨
    ∀ p ∈ hits, p.1.options.timbre = none
  cell : ∀ p ∈ hits, ∀ q ∈ hits, (hits.filter fun s =>
    s.1.trigger.velocities = p.1.trigger.velocities ∧
      s.1.options.timbre = q.1.options.timbre).length = 1

instance (hits : List (Region × ℕ)) : Decidable (Grid hits) :=
  decidable_of_iff (_ ∧ _) ⟨fun h => ⟨h.1, h.2⟩, fun h => ⟨h.timbre, h.cell⟩⟩

namespace Grid

variable {hits : List (Region × ℕ)}

theorem existsUnique (h : Grid hits) {p q : Region × ℕ} (hp : p ∈ hits) (hq : q ∈ hits) :
    ∃! s, s ∈ hits ∧ s.1.trigger.velocities = p.1.trigger.velocities ∧
      s.1.options.timbre = q.1.options.timbre := by
  obtain ⟨s, hs⟩ := List.length_eq_one_iff.mp (h.cell p hp q hq)
  have hmem : ∀ t, (t ∈ hits ∧ t.1.trigger.velocities = p.1.trigger.velocities ∧
      t.1.options.timbre = q.1.options.timbre) ↔ t = s := by
    intro t
    rw [← List.mem_singleton (a := t), ← hs, List.mem_filter, decide_eq_true_eq]
  exact ⟨s, (hmem s).mpr rfl, fun t ht => (hmem t).mp ht⟩

theorem eq_of_cell (h : Grid hits) {p q : Region × ℕ} (hp : p ∈ hits) (hq : q ∈ hits)
    (hvelocities : p.1.trigger.velocities = q.1.trigger.velocities)
    (htimbre : p.1.options.timbre = q.1.options.timbre) : p = q :=
  (h.existsUnique hp hp).unique ⟨hp, rfl, rfl⟩ ⟨hq, hvelocities.symm, htimbre.symm⟩

/-- All timbre layers have the same velocity ranges. -/
theorem velocities_perm (h : Grid hits) (hnodup : hits.Nodup) {p q : Region × ℕ}
    (hp : p ∈ hits) (hq : q ∈ hits) :
    ((withTimbre hits p.1.options.timbre).map fun s => s.1.trigger.velocities).Perm
      ((withTimbre hits q.1.options.timbre).map fun s => s.1.trigger.velocities) := by
  have hdistinct : ∀ timbre,
      ((withTimbre hits timbre).map fun s => s.1.trigger.velocities).Nodup := by
    intro timbre
    refine (hnodup.filter _).map_on fun s hs t ht hst => ?_
    obtain ⟨hs, hstimbre⟩ := mem_withTimbre.mp hs
    obtain ⟨ht, httimbre⟩ := mem_withTimbre.mp ht
    exact h.eq_of_cell hs ht hst (hstimbre.trans httimbre.symm)
  have hmem : ∀ s ∈ hits, ∀ velocities,
      velocities ∈ (withTimbre hits s.1.options.timbre).map (fun s => s.1.trigger.velocities) ↔
        ∃ t ∈ hits, t.1.trigger.velocities = velocities := by
    intro s hs velocities
    simp only [List.mem_map, mem_withTimbre]
    constructor
    · rintro ⟨t, ⟨ht, -⟩, hvelocities⟩
      exact ⟨t, ht, hvelocities⟩
    · rintro ⟨t, ht, rfl⟩
      obtain ⟨c, ⟨hc, hvelocities, htimbre⟩, -⟩ := h.existsUnique ht hs
      exact ⟨c, ⟨hc, htimbre⟩, hvelocities⟩
  refine (List.perm_ext_iff_of_nodup (hdistinct _) (hdistinct _)).mpr fun velocities => ?_
  rw [hmem p hp, hmem q hq]

theorem length_le_one (hnodup : hits.Nodup) {layer : List (Region × ℕ)} (hsub : layer.Sublist hits)
    (hone : ∀ p ∈ layer, ∀ q ∈ layer, p = q) : layer.length ≤ 1 := by
  match layer, hnodup.sublist hsub with
  | [], _ => exact Nat.zero_le 1
  | [_], _ => exact le_rfl
  | p :: q :: rest, hlayer =>
      have hpq : p = q := hone p List.mem_cons_self q (List.mem_cons_of_mem _ List.mem_cons_self)
      exact absurd (hpq ▸ List.mem_cons_self) (List.nodup_cons.mp hlayer).1

/-- Either every region feathers, or there is one velocity range only. -/
def Feathered (hits : List (Region × ℕ)) : Prop :=
  (∀ p ∈ hits, p.1.options.feather = true) ∨
    ∀ p ∈ hits, ∀ q ∈ hits, p.1.trigger.velocities = q.1.trigger.velocities

theorem length_le_one_of_not_blends (h : Grid hits) (hnodup : hits.Nodup)
    (hfeathered : Feathered hits) {timbre : Option ValueRange}
    (hblends : ¬ Blends (withTimbre hits timbre)) : (withTimbre hits timbre).length ≤ 1 := by
  rcases hfeathered with hall | hone
  · by_contra hlength
    exact hblends ⟨Nat.lt_of_not_le hlength, fun p hp => hall p (mem_withTimbre.mp hp).1⟩
  · refine length_le_one hnodup List.filter_sublist fun p hp q hq => ?_
    obtain ⟨hp, hptimbre⟩ := mem_withTimbre.mp hp
    obtain ⟨hq, hqtimbre⟩ := mem_withTimbre.mp hq
    exact h.eq_of_cell hp hq (hone p hp q hq) (hptimbre.trans hqtimbre.symm)

theorem eq_singleton {layer : List (Region × ℕ)} (hlength : layer.length ≤ 1) {q : Region × ℕ}
    (hq : q ∈ layer) : layer = [q] := by
  obtain ⟨p, rfl⟩ := List.length_eq_one_iff.mp (le_antisymm hlength (List.length_pos_of_mem hq))
  rw [List.mem_singleton.mp hq]

theorem sum_sq_velocities (h : Grid hits) (hnodup : hits.Nodup) (hfeathered : Feathered hits)
    {q : Region × ℕ} (hq : q ∈ hits) (velocity : ℕ) :
    ((withTimbre hits q.1.options.timbre).map fun p =>
      (velocityWeight hits p.1 velocity : ℝ) ^ 2).sum = 1 := by
  by_cases hblends : Blends (withTimbre hits q.1.options.timbre)
  · exact sum_sq_velocityWeight hblends velocity
  · have hlength := h.length_le_one_of_not_blends hnodup hfeathered hblends
    have hone := velocityWeight_of_not_blends hblends velocity
    rw [eq_singleton hlength (mem_withTimbre.mpr ⟨hq, rfl⟩), List.map_singleton, List.sum_singleton,
      hone, one_pow]

theorem sum_sq_timbres (h : Grid hits) (hnodup : hits.Nodup) {q : Region × ℕ} (hq : q ∈ hits)
    (timbre : ℕ) :
    ((withVelocities hits q.1.trigger.velocities).map fun p =>
      (timbreWeight hits p.1 timbre : ℝ) ^ 2).sum = 1 := by
  have hmem : q ∈ withVelocities hits q.1.trigger.velocities := mem_withVelocities.mpr ⟨hq, rfl⟩
  rcases h.timbre with hall | hnone
  · have htimbred : timbred hits q.1.trigger.velocities =
        withVelocities hits q.1.trigger.velocities :=
      List.filter_eq_self.mpr fun p hp => hall p (mem_withVelocities.mp hp).1
    rw [← htimbred] at hmem ⊢
    exact sum_sq_timbreWeight (List.ne_nil_of_mem hmem) timbre
  · have hlength : (withVelocities hits q.1.trigger.velocities).length ≤ 1 := by
      refine length_le_one hnodup List.filter_sublist fun p hp s hs => ?_
      obtain ⟨hp, hpvelocities⟩ := mem_withVelocities.mp hp
      obtain ⟨hs, hsvelocities⟩ := mem_withVelocities.mp hs
      exact h.eq_of_cell hp hs (hpvelocities.trans hsvelocities.symm)
        ((hnone p hp).trans (hnone s hs).symm)
    rw [eq_singleton hlength hmem, List.map_singleton, List.sum_singleton,
      timbreWeight_of_none (hnone q hq), one_pow]

/-- In a grid the velocity weight depends on the velocity range only. -/
theorem velocityWeight_congr (h : Grid hits) (hnodup : hits.Nodup) (hfeathered : Feathered hits)
    {p q : Region × ℕ} (hp : p ∈ hits) (hq : q ∈ hits)
    (hvelocities : p.1.trigger.velocities = q.1.trigger.velocities) (velocity : ℕ) :
    (velocityWeight hits p.1 velocity : ℝ) = velocityWeight hits q.1 velocity := by
  have hperm := h.velocities_perm hnodup hp hq
  have hlength : (withTimbre hits p.1.options.timbre).length =
      (withTimbre hits q.1.options.timbre).length := by
    simpa using hperm.length_eq
  by_cases hpblends : Blends (withTimbre hits p.1.options.timbre) <;>
    by_cases hqblends : Blends (withTimbre hits q.1.options.timbre)
  · rw [velocityWeight_of_blends hpblends, velocityWeight_of_blends hqblends, weight, weight,
      energy_perm hperm, hvelocities]
  · have hle := h.length_le_one_of_not_blends hnodup hfeathered hqblends
    exact absurd (hpblends.1.trans_eq hlength) (Nat.not_le_of_lt (Nat.lt_succ_of_le hle))
  · have hle := h.length_le_one_of_not_blends hnodup hfeathered hpblends
    exact absurd (hqblends.1.trans_eq hlength.symm) (Nat.not_le_of_lt (Nat.lt_succ_of_le hle))
  · rw [velocityWeight_of_not_blends hpblends, velocityWeight_of_not_blends hqblends]

/-- A grid is summed up row by row, a row for each region of a timbre layer. -/
theorem sum_rows (h : Grid hits) (hnodup : hits.Nodup) {q : Region × ℕ} (hq : q ∈ hits)
    (f : Region × ℕ → ℝ) :
    (hits.map f).sum = ((withTimbre hits q.1.options.timbre).map fun s =>
      ((withVelocities hits s.1.trigger.velocities).map f).sum).sum := by
  let layer := withTimbre hits q.1.options.timbre
  have hlayer : layer.Nodup := hnodup.filter _
  have hrow : ∀ velocities, ((withVelocities hits velocities).map f).sum =
      ∑ p ∈ hits.toFinset, if p.1.trigger.velocities = velocities then f p else 0 := by
    intro velocities
    rw [withVelocities, ← List.sum_toFinset f (hnodup.filter _), List.toFinset_filter,
      Finset.sum_filter]
    simp only [beq_iff_eq]
  -- Each region is in the row of the one that has its velocities in the layer.
  have hcell : ∀ p ∈ hits.toFinset, f p = ∑ s ∈ layer.toFinset,
      if p.1.trigger.velocities = s.1.trigger.velocities then f p else 0 := by
    intro p hp
    obtain ⟨c, ⟨hc, hvelocities, htimbre⟩, hunique⟩ :=
      h.existsUnique (List.mem_toFinset.mp hp) hq
    have hmem : c ∈ layer.toFinset := List.mem_toFinset.mpr (mem_withTimbre.mpr ⟨hc, htimbre⟩)
    rw [Finset.sum_eq_single_of_mem c hmem, if_pos hvelocities.symm]
    intro s hs hne
    obtain ⟨hs, hstimbre⟩ := mem_withTimbre.mp (List.mem_toFinset.mp hs)
    exact if_neg fun heq => hne (hunique s ⟨hs, heq.symm, hstimbre⟩)
  calc (hits.map f).sum = ∑ p ∈ hits.toFinset, f p := (List.sum_toFinset f hnodup).symm
    _ = ∑ p ∈ hits.toFinset, ∑ s ∈ layer.toFinset,
          if p.1.trigger.velocities = s.1.trigger.velocities then f p else 0 :=
        Finset.sum_congr rfl hcell
    _ = ∑ s ∈ layer.toFinset, ((withVelocities hits s.1.trigger.velocities).map f).sum := by
        rw [Finset.sum_comm]
        exact Finset.sum_congr rfl fun s _ => (hrow _).symm
    _ = _ := List.sum_toFinset _ hlayer

/-- The squares of the gains of a grid add up to one. -/
theorem sum_sq_gains (h : Grid hits) (hnodup : hits.Nodup) (hfeathered : Feathered hits)
    (hne : hits ≠ []) (velocity timbre : ℕ) :
    (hits.map fun p =>
      (velocityWeight hits p.1 velocity * timbreWeight hits p.1 timbre : ℝ) ^ 2).sum = 1 := by
  obtain ⟨q, hq⟩ := List.exists_mem_of_ne_nil hits hne
  rw [h.sum_rows hnodup hq, ← h.sum_sq_velocities hnodup hfeathered hq velocity]
  refine congrArg List.sum (List.map_congr_left fun s hs => ?_)
  obtain ⟨hs, -⟩ := mem_withTimbre.mp hs
  have hrow : (withVelocities hits s.1.trigger.velocities).map (fun p =>
      (velocityWeight hits p.1 velocity * timbreWeight hits p.1 timbre : ℝ) ^ 2) =
      (withVelocities hits s.1.trigger.velocities).map fun p =>
        (velocityWeight hits s.1 velocity : ℝ) ^ 2 * (timbreWeight hits p.1 timbre : ℝ) ^ 2 := by
    refine List.map_congr_left fun p hp => ?_
    obtain ⟨hp, hvelocities⟩ := mem_withVelocities.mp hp
    rw [mul_pow, h.velocityWeight_congr hnodup hfeathered hp hs hvelocities]
  rw [hrow, List.sum_map_mul_left, h.sum_sq_timbres hnodup hs, mul_one]

end Grid

/-! ## Selections -/

theorem kept_nodup (i : Instrument) (e : NoteEvent) : (kept i e).Nodup := by
  have hplaces : (i.regions.zipIdx.map Prod.snd).Nodup := by
    rw [List.zipIdx_map_snd]
    exact List.nodup_range'
  exact ((List.Nodup.of_map _ hplaces).filter _).sublist (List.take_sublist _ _)

theorem map_select {τ : Type} (i : Instrument) (e : NoteEvent) (f : ℝ → τ) :
    (select i e : List (Triggered ℝ)).map (fun t => f t.gain) = (kept i e).map fun p =>
      f (velocityWeight (kept i e) p.1 e.velocity * timbreWeight (kept i e) p.1 e.timbre) :=
  List.map_map

/-- Whatever regions an event triggers, their gains are positive and at most one.
Where several regions with one timbre range all feather, the squares of their
velocity weights add up to one, and otherwise these weights are one; the squares
of the timbre weights add up to one among the regions that have a timbre range
and share a velocity range.  If something is triggered and it forms a grid, in
which all regions feather or share one velocity range, then the squares of the
gains add up to one. -/
theorem gains_have_equal_power (i : Instrument) (e : NoteEvent) :
    let hits := kept i e
    (∀ t ∈ (select i e : List (Triggered ℝ)), 0 < t.gain ∧ t.gain ≤ 1) ∧
      (∀ timbre, let layer := withTimbre hits timbre
        (2 ≤ layer.length ∧ (∀ p ∈ layer, p.1.options.feather = true) →
          (layer.map fun p => (velocityWeight hits p.1 e.velocity : ℝ) ^ 2).sum = 1) ∧
        (¬ (2 ≤ layer.length ∧ ∀ p ∈ layer, p.1.options.feather = true) →
          ∀ p ∈ layer, (velocityWeight hits p.1 e.velocity : ℝ) = 1)) ∧
      (∀ velocities, timbred hits velocities ≠ [] →
        ((timbred hits velocities).map fun p =>
          (timbreWeight hits p.1 e.timbre : ℝ) ^ 2).sum = 1) ∧
      (hits ≠ [] → Grid hits →
        (∀ p ∈ hits, p.1.options.feather = true) ∨
          (∀ p ∈ hits, ∀ q ∈ hits, p.1.trigger.velocities = q.1.trigger.velocities) →
        ((select i e : List (Triggered ℝ)).map fun t => t.gain ^ 2).sum = 1) := by
  intro hits
  refine ⟨fun t ht => ?_, fun timbre => ⟨fun hblends => ?_, fun hblends p hp => ?_⟩,
    fun velocities hne => sum_sq_timbreWeight hne _, fun hne hgrid hfeathered => ?_⟩
  · obtain ⟨p, hp, rfl⟩ := List.mem_map.mp ht
    obtain ⟨hvpos, hvle⟩ := velocityWeight_mem_unit hp e.velocity
    obtain ⟨htpos, htle⟩ := timbreWeight_mem_unit hp e.timbre
    exact ⟨mul_pos hvpos htpos, mul_le_one₀ hvle htpos.le htle⟩
  · exact sum_sq_velocityWeight hblends _
  · obtain ⟨-, rfl⟩ := mem_withTimbre.mp hp
    exact velocityWeight_of_not_blends hblends _
  · rw [map_select i e (· ^ 2)]
    exact hgrid.sum_sq_gains (kept_nodup i e) hfeathered hne _ _

/-- Two soft and two loud regions, a dark and a bright one each, that all overlap. -/
example :
    let region (velocities timbre : ValueRange) : Region :=
      { trigger := { velocities }, options := { timbre, feather := true } }
    let i : Instrument :=
      { regions := [region ⟨0, 60⟩ ⟨0, 60⟩, region ⟨0, 60⟩ ⟨40, 100⟩,
          region ⟨40, 100⟩ ⟨0, 60⟩, region ⟨40, 100⟩ ⟨40, 100⟩] }
    let hits := kept i ⟨.noteOn, 60, 50, 0, 45⟩
    hits.length = 4 ∧ Grid hits ∧ ∀ p ∈ hits, p.1.options.feather = true := by
  decide

end Multisample.Selection
