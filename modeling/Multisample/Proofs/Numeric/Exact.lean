import Mathlib.Analysis.SpecialFunctions.Log.Base
import Mathlib.Analysis.SpecialFunctions.Pow.Real
import Mathlib.Analysis.SpecialFunctions.Trigonometric.DerivHyp
import Multisample.Effects.Transform

/-!
# Exact numbers

The real numbers are scalars without rounding, and their spectra are kept as
the sequences they come from: a product of spectra is the circular convolution
itself.  Statements about signal processing in exact arithmetic are statements
about these instances.
-/

namespace Multisample

/-- The whole number next to a real number on the side of zero. -/
noncomputable def towardZero (x : ℝ) : ℤ :=
  if x < 0 then ⌈x⌉ else ⌊x⌋

noncomputable instance instElementaryReal : Elementary ℝ where
  toAdd := inferInstance
  toSub := inferInstance
  toMul := inferInstance
  toDiv := inferInstance
  toNeg := inferInstance
  ofNat n := n
  ofDecimal m s e := OfScientific.ofScientific m s e
  lt x y := decide (x < y)
  le x y := decide (x ≤ y)
  eq x y := decide (x = y)
  floor x := ⌊x⌋
  ceil x := ⌈x⌉
  toNat x := ⌊x⌋₊
  rem x y := x - y * towardZero (x / y)
  pi := Real.pi
  sqrt := Real.sqrt
  sin := Real.sin
  cos := Real.cos
  tan := Real.tan
  tanh := Real.tanh
  exp := Real.exp
  exp2 x := 2 ^ x
  log10 x := Real.logb 10 x
  pow x y := x ^ y

/-- Samples and positions are the same exact numbers. -/
instance instPrecisionReal : Precision ℝ ℝ where
  widen := id
  narrow := id

/-- The inverse leaves out the division by the number of samples. -/
noncomputable instance instTransformReal : Transform ℝ (Fin 256 → ℝ) where
  forward xs i := xs.getD i 0
  inverse s := List.ofFn fun i => 256 * s i
  zero := 0
  add x y := x + y
  mul x y i := ∑ k, x k * y (i - k)

namespace Scalar

@[simp] theorem lt_real (x y : ℝ) : lt x y = decide (x < y) := rfl

@[simp] theorem le_real (x y : ℝ) : le x y = decide (x ≤ y) := rfl

@[simp] theorem eq_real (x y : ℝ) : eq x y = decide (x = y) := rfl

@[simp] theorem ofNat_real (n : ℕ) : (ofNat n : ℝ) = n := rfl

@[simp] theorem zero_real : @OfNat.ofNat ℝ 0 (instOfNat 0) = 0 :=
  Nat.cast_zero

@[simp] theorem one_real : @OfNat.ofNat ℝ 1 (instOfNat 1) = 1 :=
  Nat.cast_one

@[simp] theorem numeral_real (n : ℕ) [n.AtLeastTwo] :
    @OfNat.ofNat ℝ n (instOfNat n) = OfNat.ofNat n := rfl

@[simp] theorem decimal_real (m : ℕ) (s : Bool) (e : ℕ) :
    @OfScientific.ofScientific ℝ instOfScientific m s e =
      OfScientific.ofScientific m s e := rfl

@[simp] theorem toNat_real (x : ℝ) : toNat x = ⌊x⌋₊ := rfl

@[simp] theorem max_real (x y : ℝ) : max x y = Max.max x y := by
  rcases lt_or_ge x y with h | h
  · simp [max, h, h.le]
  · simp [max, h, not_lt.mpr h]

@[simp] theorem min_real (x y : ℝ) : min x y = Min.min x y := by
  rcases lt_or_ge y x with h | h
  · simp [min, h, h.le]
  · simp [min, h, not_lt.mpr h]

theorem clamp_real (x low high : ℝ) : clamp x low high = Min.min (Max.max x low) high := by
  have hraised : (if x < low then low else x) = Max.max x low := by
    rcases lt_or_ge x low with h | h
    · rw [if_pos h, max_eq_right h.le]
    · rw [if_neg (not_lt.mpr h), max_eq_left h]
  simp only [clamp, lt_real, decide_eq_true_eq, hraised]
  rcases lt_or_ge high (Max.max x low) with h | h
  · rw [if_pos h, min_eq_right h.le]
  · rw [if_neg (not_lt.mpr h), min_eq_left h]

theorem clamp_mem_real {low high : ℝ} (h : low ≤ high) (x : ℝ) :
    low ≤ clamp x low high ∧ clamp x low high ≤ high := by
  simp only [clamp, lt_real, decide_eq_true_eq]
  split <;> split <;> constructor <;> linarith

theorem clamp_of_mem_real {low high x : ℝ} (hlow : low ≤ x) (hhigh : x ≤ high) :
    clamp x low high = x := by
  simp [clamp, not_lt.mpr hlow, not_lt.mpr hhigh]

theorem trunc_real (x : ℝ) : trunc x = if x < 0 then (⌈x⌉ : ℝ) else ⌊x⌋ := by
  simp only [trunc, lt_real, decide_eq_true_eq, zero_real]
  rfl

theorem abs_real (x : ℝ) : abs x = |x| := by
  by_cases h : x ≤ 0
  · simp [abs, h, abs_of_nonpos]
  · simp [abs, h, abs_of_pos (not_le.mp h)]

/-- The power that is left takes up the bits of the exponent one by one. -/
theorem npowGo_real {fuel n : ℕ} (h : n < fuel) (acc base : ℝ) :
    npowGo fuel acc base n = acc * base ^ n := by
  induction fuel generalizing acc base n with
  | zero => exact absurd h (Nat.not_lt_zero n)
  | succ fuel ih =>
      have hbits : base ^ n = base ^ (n % 2) * (base * base) ^ (n / 2) := by
        rw [← pow_two, ← pow_mul, ← pow_add, Nat.mod_add_div]
      have hacc : (if n % 2 = 1 then acc * base else acc) = acc * base ^ (n % 2) := by
        rcases Nat.mod_two_eq_zero_or_one n with hbit | hbit <;> simp [hbit]
      rw [npowGo, hacc, hbits, ← mul_assoc]
      split
      · rename_i hlast
        rw [hlast, pow_zero, mul_one]
      · exact ih (by omega) _ _

@[simp] theorem npow_real (x : ℝ) (n : ℕ) : npow x n = x ^ n := by
  rw [npow, npowGo_real (Nat.lt_succ_self n), one_real, one_mul]

@[simp] theorem zpow_real (x : ℝ) (n : ℤ) : zpow x n = x ^ n := by
  cases n with
  | ofNat n => rw [zpow, npow_real, Int.ofNat_eq_natCast, zpow_natCast]
  | negSucc n => rw [zpow, npow_real, zpow_negSucc, one_real, one_div]

theorem round_real (x : ℝ) : round x =
    if 0.5 ≤ |x - trunc x| then if x < 0 then trunc x - 1 else trunc x + 1 else trunc x := by
  simp only [round, le_real, lt_real, decide_eq_true_eq, decimal_real, abs_real, zero_real,
    one_real]

/-- Between whole numbers, rounding stays between them. -/
theorem round_mem_real {x : ℝ} {low high : ℤ} (hlow : low ≤ x) (hhigh : x ≤ high) :
    low ≤ round x ∧ round x ≤ high := by
  have hceil := Int.le_ceil x
  have hfloor := Int.floor_le x
  have hceilHigh : (⌈x⌉ : ℝ) ≤ high := by exact_mod_cast Int.ceil_le.mpr hhigh
  have hlowFloor : (low : ℝ) ≤ ⌊x⌋ := by exact_mod_cast Int.le_floor.mpr hlow
  rw [round_real, trunc_real]
  by_cases hneg : x < 0
  · rw [if_pos hneg, if_pos hneg]
    by_cases hfar : 0.5 ≤ |x - ⌈x⌉|
    · -- The number lies below its ceiling, so the lower bound does, too.
      rw [if_pos hfar]
      have hbelow : x < ⌈x⌉ := by
        refine lt_of_le_of_ne hceil fun heq => ?_
        rw [← heq] at hfar
        norm_num at hfar
      have hnext : (low : ℝ) + 1 ≤ ⌈x⌉ := by
        have hlt : (low : ℝ) < ⌈x⌉ := hlow.trans_lt hbelow
        exact_mod_cast hlt
      exact ⟨by linarith, by linarith⟩
    · rw [if_neg hfar]
      exact ⟨hlow.trans hceil, hceilHigh⟩
  · rw [if_neg hneg, if_neg hneg]
    by_cases hfar : 0.5 ≤ |x - ⌊x⌋|
    · rw [if_pos hfar]
      have habove : ⌊x⌋ < x := by
        refine lt_of_le_of_ne hfloor fun heq => ?_
        rw [heq] at hfar
        norm_num at hfar
      have hnext : (⌊x⌋ : ℝ) + 1 ≤ high := by
        have hlt : (⌊x⌋ : ℝ) < high := habove.trans_le hhigh
        exact_mod_cast hlt
      exact ⟨by linarith, by linarith⟩
    · rw [if_neg hfar]
      exact ⟨hlowFloor, hfloor.trans hhigh⟩

end Scalar

/-- A point between two numbers is no further from zero than they are. -/
theorem abs_between_le {x y t b : ℝ} (ht : 0 ≤ t ∧ t ≤ 1) (hx : |x| ≤ b) (hy : |y| ≤ b) :
    |x * (1 - t) + y * t| ≤ b := by
  have hrest : 0 ≤ 1 - t := by linarith [ht.2]
  calc |x * (1 - t) + y * t| ≤ |x * (1 - t)| + |y * t| := abs_add_le _ _
    _ = |x| * (1 - t) + |y| * t := by
        rw [abs_mul, abs_mul, abs_of_nonneg hrest, abs_of_nonneg ht.1]
    _ ≤ b * (1 - t) + b * t := by
        gcongr
        exact ht.1
    _ = b := by ring

end Multisample
