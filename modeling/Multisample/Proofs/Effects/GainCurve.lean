import Mathlib.Tactic.Linarith
import Mathlib.Topology.Order.Lattice
import Multisample.Effects.Compressor
import Multisample.Proofs.Numeric.Exact

/-!
# The curve of a compressor

What a compressor takes off a level is a share of how far the level stands above
the threshold, where a knee rounds the corner.  That distance is one formula: a
parabola that stops at the upper edge of the knee, and the straight line that goes
on from there.  It rises with the level, but never faster than the level does, and
so the output rises while more and more is taken off.
-/

namespace Multisample

namespace Compressor

variable {threshold ratio knee : ℝ}

/-! ## How far a level stands above the threshold -/

/-- How far a level has come into the knee, from its lower edge to its upper one. -/
noncomputable def intoKnee (threshold knee level : ℝ) : ℝ :=
  max 0 (min (level - (threshold - knee / 2)) knee)

/-- How far a level has come beyond the upper edge of the knee. -/
noncomputable def beyondKnee (threshold knee level : ℝ) : ℝ :=
  max 0 (level - (threshold + knee / 2))

/-- The distance from the threshold up to a level, with the corner rounded. -/
noncomputable def excess (threshold knee level : ℝ) : ℝ :=
  intoKnee threshold knee level ^ 2 / (2 * knee) + beyondKnee threshold knee level

theorem excess_of_le {level : ℝ} (hknee : 0 ≤ knee) (h : level ≤ threshold - knee / 2) :
    excess threshold knee level = 0 := by
  have hinto : intoKnee threshold knee level = 0 :=
    max_eq_left ((min_le_left _ _).trans (sub_nonpos.mpr h))
  have hbeyond : beyondKnee threshold knee level = 0 := max_eq_left (by linarith)
  rw [excess, hinto, hbeyond]
  ring

theorem excess_of_between {level : ℝ} (hlow : threshold - knee / 2 ≤ level)
    (hhigh : level ≤ threshold + knee / 2) :
    excess threshold knee level = (level - threshold + knee / 2) ^ 2 / (2 * knee) := by
  have hinto : intoKnee threshold knee level = level - threshold + knee / 2 := by
    rw [intoKnee, min_eq_left (by linarith), max_eq_right (by linarith)]
    ring
  have hbeyond : beyondKnee threshold knee level = 0 := max_eq_left (by linarith)
  rw [excess, hinto, hbeyond, add_zero]

/-- Above the knee nothing is left of the rounding. -/
theorem excess_of_ge {level : ℝ} (hknee : 0 ≤ knee) (h : threshold + knee / 2 ≤ level) :
    excess threshold knee level = level - threshold := by
  have hinto : intoKnee threshold knee level = knee := by
    rw [intoKnee, min_eq_right (by linarith), max_eq_right hknee]
  have hbeyond : beyondKnee threshold knee level = level - (threshold + knee / 2) :=
    max_eq_right (by linarith)
  have hparabola : knee ^ 2 / (2 * knee) = knee / 2 := by
    rcases hknee.eq_or_lt with rfl | hpos
    · norm_num
    · field_simp
  rw [excess, hinto, hbeyond, hparabola]
  ring

/-- The four pieces of the curve are one share of the same distance. -/
theorem gainReduction_eq (hknee : 0 ≤ knee) (level : ℝ) :
    gainReduction level threshold ratio knee = -((1 - 1 / ratio) * excess threshold knee level) := by
  simp only [gainReduction, Scalar.le_real, Scalar.zero_real, Scalar.one_real, decide_eq_true_eq]
  split
  · rename_i hhard
    obtain rfl : knee = 0 := le_antisymm hhard hknee
    split
    · rename_i hbelow
      rw [excess_of_le hknee (by linarith)]
      ring
    · rename_i habove
      rw [excess_of_ge hknee (by linarith)]
      ring
  · split
    · rename_i hbelow
      rw [excess_of_le hknee hbelow]
      ring
    · rename_i hlow
      split
      · rename_i habove
        rw [excess_of_ge hknee habove]
        ring
      · rename_i hhigh
        rw [excess_of_between (by linarith) (by linarith)]
        ring

theorem excess_nonneg (hknee : 0 ≤ knee) (threshold level : ℝ) : 0 ≤ excess threshold knee level :=
  add_nonneg (div_nonneg (sq_nonneg _) (mul_nonneg zero_le_two hknee)) (le_max_left _ _)

theorem continuous_excess (threshold knee : ℝ) : Continuous (excess threshold knee) := by
  unfold excess intoKnee beyondKnee
  fun_prop

/-! ## How fast it rises -/

theorem intoKnee_mem (hknee : 0 ≤ knee) (threshold level : ℝ) :
    0 ≤ intoKnee threshold knee level ∧ intoKnee threshold knee level ≤ knee :=
  ⟨le_max_left _ _, max_le hknee (min_le_right _ _)⟩

theorem monotone_intoKnee (threshold knee : ℝ) : Monotone (intoKnee threshold knee) := by
  intro low high h
  unfold intoKnee
  gcongr

theorem monotone_beyondKnee (threshold knee : ℝ) : Monotone (beyondKnee threshold knee) := by
  intro low high h
  unfold beyondKnee
  gcongr

theorem monotone_excess (hknee : 0 ≤ knee) (threshold : ℝ) : Monotone (excess threshold knee) := by
  intro low high h
  have hinto := monotone_intoKnee threshold knee h
  have hbeyond := monotone_beyondKnee threshold knee h
  have hnonneg := (intoKnee_mem hknee threshold low).1
  unfold excess
  gcongr

/-- Through the knee and beyond it a level goes its own way from the lower edge. -/
theorem intoKnee_add_beyondKnee (hknee : 0 ≤ knee) (threshold level : ℝ) :
    intoKnee threshold knee level + beyondKnee threshold knee level =
      max 0 (level - (threshold - knee / 2)) := by
  unfold intoKnee beyondKnee
  rcases le_total level (threshold + knee / 2) with hinside | hbeyond
  · have hnone : max 0 (level - (threshold + knee / 2)) = 0 := max_eq_left (by linarith)
    rw [min_eq_left (by linarith), hnone, add_zero]
  · have hall : max 0 (level - (threshold + knee / 2)) = level - (threshold + knee / 2) :=
      max_eq_right (by linarith)
    rw [min_eq_right (by linarith), max_eq_right hknee, hall, max_eq_right (by linarith)]
    ring

/-- Inside the knee the parabola is nowhere steeper than the level. -/
theorem parabola_sub_le {low high : ℝ} (hlow : 0 ≤ low) (h : low ≤ high) (hhigh : high ≤ knee) :
    high ^ 2 / (2 * knee) - low ^ 2 / (2 * knee) ≤ high - low := by
  rcases (hlow.trans (h.trans hhigh)).eq_or_lt with rfl | hpos
  · obtain rfl : low = high := by linarith
    rw [sub_self, sub_self]
  · rw [← sub_div, div_le_iff₀ (by linarith)]
    nlinarith

theorem excess_sub_le (hknee : 0 ≤ knee) (threshold : ℝ) {low high : ℝ} (h : low ≤ high) :
    excess threshold knee high - excess threshold knee low ≤ high - low := by
  have hparabola := parabola_sub_le (intoKnee_mem hknee threshold low).1
    (monotone_intoKnee threshold knee h) (intoKnee_mem hknee threshold high).2
  have hlow := intoKnee_add_beyondKnee hknee threshold low
  have hhigh := intoKnee_add_beyondKnee hknee threshold high
  have hedge : max 0 (high - (threshold - knee / 2)) - max 0 (low - (threshold - knee / 2)) ≤
      high - low := by
    rcases le_total (high - (threshold - knee / 2)) 0 with hbelow | habove
    · rw [max_eq_left hbelow, max_eq_left (by linarith)]
      linarith
    · rw [max_eq_right habove]
      linarith [le_max_right 0 (low - (threshold - knee / 2))]
  unfold excess
  linarith

/-! ## The curve -/

/-- A curve that leaves soft levels alone and takes more off the louder ones, without a
jump and without turning the order of two levels round; above the knee the output rises
by the share of the input that the ratio says. -/
structure IsCurve (threshold ratio knee : ℝ) (reduction : ℝ → ℝ) : Prop where
  nonpos : ∀ level, reduction level ≤ 0
  rests : ∀ level ≤ threshold - knee / 2, reduction level = 0
  continuous : Continuous reduction
  antitone : Antitone reduction
  monotone_output : Monotone fun level => level + reduction level
  slope_output : ∀ low high, threshold + knee / 2 ≤ low → threshold + knee / 2 ≤ high →
    (high + reduction high) - (low + reduction low) = (high - low) / ratio

/-- The share that is taken off lies between nothing and all. -/
theorem share_mem (hratio : 1 ≤ ratio) : 0 ≤ 1 - 1 / ratio ∧ 1 - 1 / ratio ≤ 1 := by
  have hinverse : 1 / ratio ≤ 1 := div_le_one_of_le₀ hratio (zero_le_one.trans hratio)
  have hpos : 0 ≤ 1 / ratio := one_div_nonneg.mpr (zero_le_one.trans hratio)
  exact ⟨sub_nonneg.mpr hinverse, sub_le_self 1 hpos⟩

/-- At every threshold, with a ratio of one at least and a knee of any width, no
width included, the compressor works along such a curve. -/
theorem gainReduction_isCurve (threshold : ℝ) (hratio : 1 ≤ ratio) (hknee : 0 ≤ knee) :
    IsCurve threshold ratio knee fun level => gainReduction level threshold ratio knee := by
  obtain ⟨hshare0, hshare1⟩ := share_mem hratio
  simp only [gainReduction_eq hknee]
  constructor
  case nonpos =>
    exact fun level => neg_nonpos.mpr (mul_nonneg hshare0 (excess_nonneg hknee threshold level))
  case rests =>
    intro level h
    rw [excess_of_le hknee h, mul_zero, neg_zero]
  case continuous => exact (continuous_const.mul (continuous_excess threshold knee)).neg
  case antitone =>
    intro low high h
    exact neg_le_neg (mul_le_mul_of_nonneg_left (monotone_excess hknee threshold h) hshare0)
  case monotone_output =>
    intro low high h
    have hrises := monotone_excess hknee threshold h
    -- What more is taken off is a share of what the level has risen.
    have htaken : (1 - 1 / ratio) * (excess threshold knee high - excess threshold knee low) ≤
        high - low :=
      (mul_le_of_le_one_left (sub_nonneg.mpr hrises) hshare1).trans (excess_sub_le hknee threshold h)
    dsimp only
    linarith
  case slope_output =>
    intro low high hlow hhigh
    rw [excess_of_ge hknee hlow, excess_of_ge hknee hhigh]
    ring

/-- Four to one above -18 dB, through a knee of 6 dB. -/
theorem gainReduction_isCurve_soft :
    (1 : ℝ) ≤ 4 ∧ (0 : ℝ) ≤ 6 ∧
      IsCurve (-18) 4 6 (fun level => gainReduction level (-18) 4 6) ∧
      gainReduction (-21 : ℝ) (-18) 4 6 = 0 ∧ gainReduction (-15 : ℝ) (-18) 4 6 = -2.25 := by
  have hratio : (1 : ℝ) ≤ 4 := by norm_num
  have hknee : (0 : ℝ) ≤ 6 := by norm_num
  have hcurve := gainReduction_isCurve (-18) hratio hknee
  refine ⟨hratio, hknee, hcurve, hcurve.rests (-21) (by norm_num), ?_⟩
  rw [gainReduction_eq (by norm_num), excess_of_ge (by norm_num) (by norm_num)]
  norm_num

end Compressor

end Multisample
