import Mathlib.Data.Rat.Cast.Order
import Mathlib.Tactic.Linarith
import Multisample.Numeric.Machine

/-!
# The value of a float

A finite float is a rational number.  It counts as an integer exactly if this
number is one.
-/

namespace Multisample.Binary

/-- The number that a finite float is. -/
def value (x : Binary) : ℚ :=
  if x.negative then -(x.mantissa * 2 ^ x.exponent) else x.mantissa * 2 ^ x.exponent

theorem mantissa_mul (x : Binary) : (x.mantissa : ℚ) * (2 : ℚ) ^ x.exponent =
    (x.mantissa <<< x.exponent.toNat : ℕ) / (1 <<< (-x.exponent).toNat : ℕ) := by
  rw [Nat.shiftLeft_eq, Nat.shiftLeft_eq, one_mul]
  push_cast
  obtain ⟨n, hn | hn⟩ := x.exponent.eq_nat_or_neg
  · rw [hn, Int.toNat_natCast, zpow_natCast, Int.toNat_of_nonpos (by omega), pow_zero, div_one]
  · rw [hn, neg_neg, Int.toNat_natCast, Int.toNat_of_nonpos (by omega), pow_zero, mul_one, zpow_neg,
      zpow_natCast, div_eq_mul_inv]

/-- A quotient of natural numbers is an integer only if nothing remains. -/
theorem natCast_div_eq_intCast {m u : ℕ} (hu : 0 < u) (n : ℤ) :
    (m : ℚ) / u = n ↔ m % u = 0 ∧ ((m / u : ℕ) : ℤ) = n := by
  have hunit : (u : ℚ) ≠ 0 := by exact_mod_cast hu.ne'
  rw [div_eq_iff hunit]
  constructor
  · intro h
    have hint : (m : ℤ) = n * u := by exact_mod_cast h
    have hdvd : u ∣ m := Int.natCast_dvd_natCast.mp ⟨n, hint.trans (mul_comm _ _)⟩
    refine ⟨Nat.mod_eq_zero_of_dvd hdvd, ?_⟩
    rw [Int.natCast_div, hint, Int.mul_ediv_cancel _ (by exact_mod_cast hu.ne')]
  · rintro ⟨hmod, rfl⟩
    have hproduct := Nat.div_mul_cancel (Nat.dvd_of_mod_eq_zero hmod)
    exact_mod_cast hproduct.symm

theorem whole?_eq_some_iff (x : Binary) (n : ℤ) : x.whole? = some n ↔ x.value = n := by
  have hunit : 0 < 1 <<< (-x.exponent).toNat := by
    rw [Nat.shiftLeft_eq, one_mul]
    positivity
  have hquotient := natCast_div_eq_intCast (m := x.mantissa <<< x.exponent.toNat) hunit
  have hshift : (x.mantissa <<< x.exponent.toNat) / (1 <<< (-x.exponent).toNat) =
      (x.mantissa <<< x.exponent.toNat) >>> (-x.exponent).toNat := by
    rw [Nat.shiftRight_eq_div_pow, Nat.shiftLeft_eq 1, one_mul]
  rw [hshift] at hquotient
  unfold value whole?
  rw [mantissa_mul]
  dsimp only
  cases x.negative with
  | false =>
      simp only [Bool.false_eq_true, if_false]
      rw [hquotient]
      split <;> simp_all
  | true =>
      simp only [if_true]
      rw [neg_eq_iff_eq_neg, ← Int.cast_neg, hquotient]
      split <;> simp_all [neg_eq_iff_eq_neg]

end Multisample.Binary
