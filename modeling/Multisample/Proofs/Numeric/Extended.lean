import Multisample.Proofs.Numeric.Exact

/-!
# Exact numbers with infinities and something that is no number

The numbers that a machine computes with are more than the real ones: there are
two infinities, and a value that is no number, which compares with nothing and
turns every result it enters into another of its kind.  Here these are added to
the real numbers, where they stay exact.  Zero has no sign, so a quotient by
zero takes the sign of what is divided.
-/

namespace Multisample

inductive Extended where
  | nan
  | infinite (negative : Bool)
  | number (x : ℝ)

namespace Extended

/-! ## Operations -/

noncomputable def neg : Extended → Extended
  | nan => nan
  | infinite n => infinite !n
  | number x => number (-x)

/-- Opposite infinities have no sum. -/
noncomputable def add : Extended → Extended → Extended
  | nan, _ | _, nan => nan
  | infinite m, infinite n => if m = n then infinite m else nan
  | infinite m, number _ => infinite m
  | number _, infinite n => infinite n
  | number x, number y => number (x + y)

/-- A number that is scaled beyond all bounds; zero stays undecided. -/
noncomputable def scaledUp (negative : Bool) (x : ℝ) : Extended :=
  if x = 0 then nan else infinite (negative != decide (x < 0))

noncomputable def mul : Extended → Extended → Extended
  | nan, _ | _, nan => nan
  | infinite m, infinite n => infinite (m != n)
  | infinite m, number y => scaledUp m y
  | number x, infinite n => scaledUp n x
  | number x, number y => number (x * y)

noncomputable def div : Extended → Extended → Extended
  | nan, _ | _, nan => nan
  | infinite _, infinite _ => nan
  | infinite m, number y => infinite (m != decide (y < 0))
  | number _, infinite _ => number 0
  | number x, number y => if y = 0 then scaledUp false x else number (x / y)

/-- Nothing is below a value that is no number, nor above it. -/
noncomputable def lt : Extended → Extended → Bool
  | number x, number y => decide (x < y)
  | number _, infinite n => !n
  | infinite m, number _ => m
  | infinite m, infinite n => m && !n
  | _, _ => false

noncomputable def eq : Extended → Extended → Bool
  | number x, number y => decide (x = y)
  | infinite m, infinite n => m == n
  | _, _ => false

noncomputable def map (f : ℝ → ℝ) : Extended → Extended
  | number x => number (f x)
  | x => x

/-- A function that has no limit at infinity. -/
noncomputable def finite (f : ℝ → ℝ) : Extended → Extended
  | number x => number (f x)
  | _ => nan

/-- The whole part as a natural number of 64 bits, which holds what is larger in. -/
noncomputable def toNat : Extended → ℕ
  | number x => min ⌊x⌋₊ (2 ^ 64 - 1)
  | infinite false => 2 ^ 64 - 1
  | _ => 0

noncomputable def rem : Extended → Extended → Extended
  | number x, number y => if y = 0 then nan else number (Scalar.rem x y)
  | number x, infinite _ => number x
  | _, _ => nan

noncomputable def sqrt : Extended → Extended
  | number x => if x < 0 then nan else number (Real.sqrt x)
  | infinite false => infinite false
  | _ => nan

noncomputable def tanh : Extended → Extended
  | number x => number (Real.tanh x)
  | infinite n => number (if n then -1 else 1)
  | nan => nan

/-- A function that grows from zero without bound. -/
noncomputable def growing (f : ℝ → ℝ) : Extended → Extended
  | number x => number (f x)
  | infinite n => if n then number 0 else infinite false
  | nan => nan

noncomputable def log10 : Extended → Extended
  | number x =>
    if x < 0 then nan else if x = 0 then infinite true else number (Real.logb 10 x)
  | infinite false => infinite false
  | _ => nan

noncomputable def pow : Extended → Extended → Extended
  | nan, _ | _, nan => nan
  | number x, number y =>
    if x = 0 ∧ y < 0 then infinite false
    else if x < 0 ∧ (⌊y⌋ : ℝ) ≠ y then nan
    else number (x ^ y)
  | number x, infinite n =>
    if |x| = 1 then number 1
    else if decide (1 < |x|) = n then number 0
    else infinite false
  | infinite m, number y =>
    if y = 0 then number 1
    else if y < 0 then number 0
    else infinite (m && decide ((⌊y⌋ : ℝ) = y ∧ ⌊y⌋ % 2 = 1))
  | infinite _, infinite n => if n then number 0 else infinite false

end Extended

noncomputable instance instElementaryExtended : Elementary Extended where
  add := Extended.add
  sub x y := Extended.add x y.neg
  mul := Extended.mul
  div := Extended.div
  neg := Extended.neg
  ofNat n := .number n
  ofDecimal m s e := .number (OfScientific.ofScientific m s e)
  lt := Extended.lt
  le x y := Extended.lt x y || Extended.eq x y
  eq := Extended.eq
  floor := Extended.map fun x => ⌊x⌋
  ceil := Extended.map fun x => ⌈x⌉
  toNat := Extended.toNat
  rem := Extended.rem
  pi := .number Real.pi
  sqrt := Extended.sqrt
  sin := Extended.finite Real.sin
  cos := Extended.finite Real.cos
  tan := Extended.finite Real.tan
  tanh := Extended.tanh
  exp := Extended.growing Real.exp
  exp2 := Extended.growing fun x => 2 ^ x
  log10 := Extended.log10
  pow := Extended.pow

/-- Samples and positions are the same numbers. -/
instance instPrecisionExtended : Precision Extended Extended where
  widen := id
  narrow := id

/-- As for exact numbers, the spectra are the sequences themselves. -/
noncomputable instance instTransformExtended : Transform Extended (Fin 256 → Extended) where
  forward xs i := xs.getD i 0
  inverse s := List.ofFn fun i => 256 * s i
  zero _ := 0
  add x y i := x i + y i
  mul x y i := Scalar.sum (List.ofFn fun k => x k * y (i - k))

namespace Extended

/-! ## Real numbers among them -/

@[simp] theorem neg_number (x : ℝ) : -number x = number (-x) := rfl

@[simp] theorem number_add (x y : ℝ) : number x + number y = number (x + y) := rfl

@[simp] theorem number_sub (x y : ℝ) : number x - number y = number (x - y) := by
  rw [sub_eq_add_neg]
  rfl

@[simp] theorem number_mul (x y : ℝ) : number x * number y = number (x * y) := rfl

theorem number_div (x : ℝ) {y : ℝ} (hy : y ≠ 0) : number x / number y = number (x / y) :=
  if_neg hy

@[simp] theorem lt_number (x y : ℝ) : Scalar.lt (number x) (number y) = decide (x < y) := rfl

@[simp] theorem eq_number (x y : ℝ) : Scalar.eq (number x) (number y) = decide (x = y) := rfl

@[simp] theorem le_number (x y : ℝ) : Scalar.le (number x) (number y) = decide (x ≤ y) := by
  show (decide (x < y) || decide (x = y)) = decide (x ≤ y)
  simp [le_iff_lt_or_eq]

@[simp] theorem floor_number (x : ℝ) : Scalar.floor (number x) = number ⌊x⌋ := rfl

@[simp] theorem ceil_number (x : ℝ) : Scalar.ceil (number x) = number ⌈x⌉ := rfl

theorem numeral_eq (n : ℕ) : @OfNat.ofNat Extended n (Scalar.instOfNat n) = number n := rfl

theorem decimal_eq (m : ℕ) (s : Bool) (e : ℕ) :
    @OfScientific.ofScientific Extended Scalar.instOfScientific m s e =
      number (OfScientific.ofScientific m s e) := rfl

theorem trunc_number (x : ℝ) : Scalar.trunc (number x) = number (Scalar.trunc x) := by
  rw [Scalar.trunc_real]
  by_cases hneg : x < 0
  · simp [Scalar.trunc, numeral_eq, hneg]
  · simp [Scalar.trunc, numeral_eq, hneg]

theorem abs_number (x : ℝ) : Scalar.abs (number x) = number |x| := by
  by_cases h : x ≤ 0
  · simp [Scalar.abs, numeral_eq, h, abs_of_nonpos]
  · simp [Scalar.abs, numeral_eq, h, abs_of_pos (not_le.mp h)]

theorem clamp_number (x low high : ℝ) :
    Scalar.clamp (number x) (number low) (number high) = number (Scalar.clamp x low high) := by
  by_cases hlow : x < low
  · by_cases hhigh : high < low <;> simp [Scalar.clamp, hlow, hhigh]
  · by_cases hhigh : high < x <;> simp [Scalar.clamp, hlow, hhigh]

theorem round_number (x : ℝ) : Scalar.round (number x) = number (Scalar.round x) := by
  rw [Scalar.round_real]
  simp only [Scalar.round, trunc_number, number_sub, abs_number, decimal_eq, numeral_eq, le_number,
    lt_number, decide_eq_true_eq, number_add, Nat.cast_zero, Nat.cast_one]
  split_ifs <;> rfl

theorem clamp_infinite {low high : ℝ} (h : low ≤ high) (negative : Bool) :
    Scalar.clamp (infinite negative) (number low) (number high) =
      number (if negative then low else high) := by
  cases negative with
  | true =>
      have hclamp : Scalar.clamp (infinite true) (number low) (number high) =
          if Scalar.lt (number high) (number low) then number high else number low :=
        rfl
      rw [hclamp]
      simp [not_lt.mpr h]
  | false => rfl

/-! ## What is no number -/

@[simp] theorem nan_add (x : Extended) : nan + x = nan := rfl

@[simp] theorem add_nan (x : Extended) : x + nan = nan := by
  cases x <;> rfl

@[simp] theorem nan_sub (x : Extended) : nan - x = nan := rfl

@[simp] theorem sub_nan (x : Extended) : x - nan = nan := by
  cases x <;> rfl

@[simp] theorem nan_mul (x : Extended) : nan * x = nan := rfl

@[simp] theorem nan_lt (x : Extended) : Scalar.lt nan x = false := rfl

@[simp] theorem lt_nan (x : Extended) : Scalar.lt x nan = false := by
  cases x <;> rfl

@[simp] theorem nan_le (x : Extended) : Scalar.le nan x = false := rfl

/-- A value that is no number passes between any two bounds. -/
@[simp] theorem clamp_nan (low high : Extended) : Scalar.clamp nan low high = nan := by
  simp [Scalar.clamp]

@[simp] theorem round_nan : Scalar.round nan = nan := by
  have htrunc : Scalar.trunc nan = nan := rfl
  simp [Scalar.round, htrunc]

end Extended

end Multisample
