import Mathlib.Analysis.SpecialFunctions.Pow.Real
import Multisample.Effects.Biquad
import Multisample.Proofs.Numeric.Exact

/-!
# Filters that ring out

The two coefficients that a second-order filter feeds back decide whether it is
stable: they have to lie in a triangle, which is to say that its poles lie
inside the unit circle.  Every designed filter is there, whatever frequency,
resonance and gain it is designed for.  Fed with silence it rings out, at
least as fast as some geometric sequence.
-/

namespace Multisample

namespace Coefficients

/-! ## The triangle -/

/-- What is fed back of the last output and of the one before keeps the filter stable. -/
structure Stable (c : Coefficients ℝ) : Prop where
  second : |c.a2| < 1
  first : |c.a1| < 1 + c.a2

/-- The triangle before the division by the leading coefficient, which is positive. -/
structure Raw.Stable (r : Raw ℝ) : Prop where
  leading : 0 < r.a0
  second : |r.a2| < r.a0
  first : |r.a1| < r.a0 + r.a2

theorem Raw.Stable.normalize {r : Raw ℝ} (h : r.Stable) : r.normalize.Stable := by
  have hpos := h.leading
  refine ⟨?_, ?_⟩
  · show |r.a2 / r.a0| < 1
    rw [abs_div, abs_of_pos hpos, div_lt_one hpos]
    exact h.second
  · show |r.a1 / r.a0| < 1 + r.a2 / r.a0
    have hone : 1 + r.a2 / r.a0 = (r.a0 + r.a2) / r.a0 := by
      rw [add_div, div_self hpos.ne']
    rw [hone, abs_div, abs_of_pos hpos]
    exact div_lt_div_of_pos_right h.first hpos

/-- Every response has its outer coefficients on either side of a middle, a positive
distance away. -/
theorem Raw.stable_of_middle {r : Raw ℝ} (middle distance : ℝ) (h0 : r.a0 = middle + distance)
    (h2 : r.a2 = middle - distance) (hdistance : 0 < distance) (h1 : |r.a1| < 2 * middle) :
    r.Stable := by
  have hmiddle : 0 < middle := by linarith [abs_nonneg r.a1]
  refine ⟨?_, ?_, ?_⟩
  · rw [h0]
    positivity
  · rw [h0, h2, abs_lt]
    exact ⟨by linarith, by linarith⟩
  · rw [h0, h2]
    linarith

/-- Between `1 - c` and `a` times `1 + c`, which are positive, lies no more than their sum. -/
theorem abs_shelf_lt {c a : ℝ} (hc : |c| < 1) (ha : 0 < a) :
    |(a - 1) + (a + 1) * c| < (a + 1) + (a - 1) * c := by
  obtain ⟨hlow, hhigh⟩ := abs_lt.mp hc
  have hnear : 0 < a * (1 + c) := mul_pos ha (by linarith)
  have hfar : 0 < 1 - c := by linarith
  rw [abs_lt]
  exact ⟨by linarith, by linarith⟩

/-- A cosine inside the circle, a positive bandwidth and a positive amplitude make a
stable filter of every response. -/
theorem raw_stable (kind : Response) {c alpha a : ℝ} (hc : |c| < 1) (halpha : 0 < alpha)
    (ha : 0 < a) : (raw kind c alpha a).Stable := by
  have hplain : ∀ {r : Raw ℝ} {distance : ℝ}, 0 < distance → r.a0 = 1 + distance →
      r.a1 = -2 * c → r.a2 = 1 - distance → r.Stable := by
    intro r distance hdistance h0 h1 h2
    refine Raw.stable_of_middle 1 distance h0 h2 hdistance ?_
    rw [h1, abs_mul, abs_neg, abs_two]
    linarith
  have hshelf : 0 < 2 * Real.sqrt a * alpha := by positivity
  have hsqrt : Elementary.sqrt a = Real.sqrt a := rfl
  cases kind with
  | lowPass => exact hplain halpha (by simp [raw]) (by simp [raw]) (by simp [raw])
  | highPass => exact hplain halpha (by simp [raw]) (by simp [raw]) (by simp [raw])
  | bandPass => exact hplain halpha (by simp [raw]) (by simp [raw]) (by simp [raw])
  | notch => exact hplain halpha (by simp [raw]) (by simp [raw]) (by simp [raw])
  | peak => exact hplain (div_pos halpha ha) (by simp [raw]) (by simp [raw]) (by simp [raw])
  | lowShelf =>
      have h1 : (raw .lowShelf c alpha a).a1 = -2 * ((a - 1) + (a + 1) * c) := by simp [raw]
      refine Raw.stable_of_middle ((a + 1) + (a - 1) * c) (2 * Real.sqrt a * alpha)
        (by simp [raw, hsqrt]) (by simp [raw, hsqrt]) hshelf ?_
      rw [h1, abs_mul, abs_neg, abs_two]
      linarith [abs_shelf_lt hc ha]
  | highShelf =>
      -- The mirror image of the other shelf.
      have hmirror := abs_shelf_lt (c := -c) (by rwa [abs_neg]) ha
      have hsame : (a - 1) + (a + 1) * -c = (a - 1) - (a + 1) * c := by ring
      have h1 : (raw .highShelf c alpha a).a1 = 2 * ((a - 1) - (a + 1) * c) := by simp [raw]
      refine Raw.stable_of_middle ((a + 1) - (a - 1) * c) (2 * Real.sqrt a * alpha)
        (by simp [raw, hsqrt]) (by simp [raw, hsqrt]) hshelf ?_
      rw [hsame] at hmirror
      rw [h1, abs_mul, abs_two]
      linarith

/-! ## Poles -/

/-- Both poles of a filter in the triangle lie inside the unit circle. -/
theorem Stable.norm_pole_lt_one {c : Coefficients ℝ} (h : c.Stable) {z : ℂ}
    (hz : z ^ 2 + c.a1 * z + c.a2 = 0) : ‖z‖ < 1 := by
  obtain ⟨hlow, hhigh⟩ := abs_lt.mp h.second
  have hre := congrArg (fun w : ℂ => w.re) hz
  have him := congrArg (fun w : ℂ => w.im) hz
  simp only [pow_two, Complex.add_re, Complex.mul_re, Complex.ofReal_re, Complex.ofReal_im,
    Complex.add_im, Complex.mul_im, Complex.zero_re, Complex.zero_im, zero_mul, sub_zero,
    add_zero] at hre him
  have hnorm : ‖z‖ ^ 2 = z.re ^ 2 + z.im ^ 2 := by
    rw [Complex.sq_norm, Complex.normSq_apply]
    ring
  by_cases hreal : z.im = 0
  · -- A real pole: outside of the interval the polynomial is positive.
    by_contra hout
    have hone : 1 ≤ |z.re| := by
      have hsquare : ‖z‖ ^ 2 = |z.re| ^ 2 := by rw [hnorm, hreal, sq_abs]; ring
      have habs : ‖z‖ = |z.re| :=
        (pow_left_inj₀ (norm_nonneg z) (abs_nonneg _) two_ne_zero).mp hsquare
      exact habs ▸ not_lt.mp hout
    have hlinear : -(|c.a1| * |z.re|) ≤ c.a1 * z.re := by
      rw [← abs_mul]
      exact neg_abs_le _
    have hfirst : |c.a1| * |z.re| < (1 + c.a2) * |z.re| :=
      mul_lt_mul_of_pos_right h.first (by linarith)
    have hfactors : 0 ≤ (|z.re| - 1) * (|z.re| - c.a2) :=
      mul_nonneg (by linarith) (by linarith)
    have hsquare : z.re * z.re = |z.re| * |z.re| := (abs_mul_abs_self _).symm
    rw [hreal] at hre
    nlinarith
  · -- A pole that is not real has its conjugate beside it, and their product is `a2`.
    have hsum : c.a1 = -2 * z.re := by
      have hfactor : z.im * (2 * z.re + c.a1) = 0 := by linarith
      have := (mul_eq_zero.mp hfactor).resolve_left hreal
      linarith
    have hproduct : ‖z‖ ^ 2 = c.a2 := by
      rw [hnorm]
      rw [hsum] at hre
      linarith
    have hbelow : ‖z‖ ^ 2 < 1 := by linarith
    exact (sq_lt_one_iff₀ (norm_nonneg z)).mp hbelow

/-! ## Ringing -/

/-- A recurrence in the triangle stays bounded: what is lost of the energy from one
step to the next is a square. -/
theorem Stable.bounded {c : Coefficients ℝ} (h : c.Stable) {y : ℕ → ℝ}
    (hy : ∀ n, y (n + 2) + c.a1 * y (n + 1) + c.a2 * y n = 0) : ∃ bound, ∀ n, |y n| ≤ bound := by
  obtain ⟨hlow, hhigh⟩ := abs_lt.mp h.second
  have hpos : 0 < 1 + c.a2 := by linarith
  let k := c.a1 / (1 + c.a2)
  have hk : k * (1 + c.a2) = c.a1 := div_mul_cancel₀ _ hpos.ne'
  have hk1 : k ^ 2 < 1 := by
    have habs : |k| < 1 := by
      rw [abs_div, abs_of_pos hpos, div_lt_one hpos]
      exact h.first
    exact (sq_lt_one_iff_abs_lt_one k).mpr habs
  let energy (n : ℕ) := y (n + 1) ^ 2 + y n ^ 2 + 2 * k * y (n + 1) * y n
  have hstep : ∀ n, energy (n + 1) ≤ energy n := by
    intro n
    have hloss : (1 + c.a2) * (energy n - energy (n + 1)) =
        (1 - c.a2) * (y (n + 2) - y n) ^ 2 := by
      have hnext : y (n + 2) = -(k * (1 + c.a2) * y (n + 1)) - c.a2 * y n := by
        rw [hk]
        linarith [hy n]
      show (1 + c.a2) * ((y (n + 1) ^ 2 + y n ^ 2 + 2 * k * y (n + 1) * y n) -
        (y (n + 2) ^ 2 + y (n + 1) ^ 2 + 2 * k * y (n + 2) * y (n + 1))) = _
      rw [hnext]
      ring
    have hsquare : 0 ≤ (1 - c.a2) * (y (n + 2) - y n) ^ 2 :=
      mul_nonneg (by linarith) (sq_nonneg _)
    rw [← hloss] at hsquare
    linarith [nonneg_of_mul_nonneg_right hsquare hpos]
  have hbelow : ∀ n, energy n ≤ energy 0 := fun n => antitone_nat_of_succ_le hstep n.zero_le
  refine ⟨Real.sqrt (energy 0 / (1 - k ^ 2)), fun n => Real.abs_le_sqrt ?_⟩
  rw [le_div_iff₀ (by linarith)]
  have hsplit : energy n = (y (n + 1) + k * y n) ^ 2 + y n ^ 2 * (1 - k ^ 2) := by
    show y (n + 1) ^ 2 + y n ^ 2 + 2 * k * y (n + 1) * y n = _
    ring
  linarith [hbelow n, sq_nonneg (y (n + 1) + k * y n)]

/-- The triangle is open: it still holds the coefficients of a filter that rings
out a little more slowly. -/
theorem Stable.exists_slower {c : Coefficients ℝ} (h : c.Stable) :
    ∃ r : ℝ, 0 < r ∧ r < 1 ∧ |c.a2| < r ^ 2 ∧ |c.a1| * r < r ^ 2 + c.a2 := by
  have hsquare : Filter.Tendsto (fun r : ℝ => r ^ 2) (nhdsWithin 1 (Set.Iio 1)) (nhds (1 ^ 2)) :=
    ((continuous_pow 2).tendsto 1).mono_left nhdsWithin_le_nhds
  have hlinear : Filter.Tendsto (fun r : ℝ => r ^ 2 + c.a2 - |c.a1| * r)
      (nhdsWithin 1 (Set.Iio 1)) (nhds (1 ^ 2 + c.a2 - |c.a1| * 1)) := by
    have hcontinuous : Continuous fun r : ℝ => r ^ 2 + c.a2 - |c.a1| * r := by fun_prop
    exact (hcontinuous.tendsto 1).mono_left nhdsWithin_le_nhds
  have hsecond := hsquare.eventually (lt_mem_nhds (by simpa using h.second))
  have hfirst := hlinear.eventually (lt_mem_nhds (show (0 : ℝ) < _ by linarith [h.first]))
  have hpos : ∀ᶠ r : ℝ in nhdsWithin 1 (Set.Iio 1), 0 < r :=
    nhdsWithin_le_nhds (lt_mem_nhds one_pos)
  obtain ⟨r, hr2, hr1, hr0, hr⟩ :=
    (hsecond.and (hfirst.and (hpos.and self_mem_nhdsWithin))).exists
  exact ⟨r, hr0, hr, hr2, by linarith⟩

/-- A recurrence in the triangle goes to zero at least as fast as a geometric sequence. -/
theorem Stable.decays {c : Coefficients ℝ} (h : c.Stable) {y : ℕ → ℝ}
    (hy : ∀ n, y (n + 2) + c.a1 * y (n + 1) + c.a2 * y n = 0) :
    ∃ bound r : ℝ, 0 < r ∧ r < 1 ∧ ∀ n, |y n| ≤ bound * r ^ n := by
  obtain ⟨r, hr0, hr1, hsecond, hfirst⟩ := h.exists_slower
  have hr2 : 0 < r ^ 2 := by positivity
  -- Blown up at the rate `r`, the sequence obeys a recurrence that is still in the triangle.
  let slower : Coefficients ℝ := { c with a1 := c.a1 / r, a2 := c.a2 / r ^ 2 }
  have hslower : slower.Stable := by
    refine ⟨?_, ?_⟩
    · show |c.a2 / r ^ 2| < 1
      rw [abs_div, abs_of_pos hr2, div_lt_one hr2]
      exact hsecond
    · show |c.a1 / r| < 1 + c.a2 / r ^ 2
      have hone : 1 + c.a2 / r ^ 2 = (r ^ 2 + c.a2) / r ^ 2 := by field_simp
      have hleft : |c.a1 / r| = |c.a1| * r / r ^ 2 := by
        rw [abs_div, abs_of_pos hr0]
        field_simp
      rw [hone, hleft]
      exact div_lt_div_of_pos_right hfirst hr2
  have hgrown : ∀ n, y (n + 2) / r ^ (n + 2) + slower.a1 * (y (n + 1) / r ^ (n + 1)) +
      slower.a2 * (y n / r ^ n) = 0 := by
    intro n
    have hzero := hy n
    show y (n + 2) / r ^ (n + 2) + c.a1 / r * (y (n + 1) / r ^ (n + 1)) +
      c.a2 / r ^ 2 * (y n / r ^ n) = 0
    have hcommon : y (n + 2) / r ^ (n + 2) + c.a1 / r * (y (n + 1) / r ^ (n + 1)) +
        c.a2 / r ^ 2 * (y n / r ^ n) =
        (y (n + 2) + c.a1 * y (n + 1) + c.a2 * y n) / r ^ (n + 2) := by
      field_simp
      ring
    rw [hcommon, hzero, zero_div]
  obtain ⟨bound, hbound⟩ := hslower.bounded (y := fun n => y n / r ^ n) hgrown
  refine ⟨bound, r, hr0, hr1, fun n => ?_⟩
  have hn := hbound n
  rwa [abs_div, abs_of_pos (pow_pos hr0 n), div_le_iff₀ (pow_pos hr0 n)] at hn

end Coefficients

namespace Biquad

/-- What one channel puts out while it is fed with silence, frame by frame. -/
noncomputable def ringing (c : Coefficients ℝ) : BiquadState ℝ → ℕ → ℝ
  | s, 0 => (stepChannel c s 0).2
  | s, n + 1 => ringing c (stepChannel c s 0).1 n

/-- Two frames of ringing decide the next. -/
theorem ringing_recurrence (c : Coefficients ℝ) (s : BiquadState ℝ) (n : ℕ) :
    ringing c s (n + 2) + c.a1 * ringing c s (n + 1) + c.a2 * ringing c s n = 0 := by
  induction n generalizing s with
  | zero =>
      simp [ringing, stepChannel]
  | succ n ih => exact ih (stepChannel c s 0).1

end Biquad

namespace Coefficients

/-! ## Designed filters -/

/-- The angle of a frequency on the unit circle, kept below half a turn. -/
noncomputable def angle (rate frequency : ℝ) : ℝ :=
  2 * Real.pi * Scalar.clamp frequency 1 (rate * 0.49) / rate

noncomputable def bandwidth (rate frequency q : ℝ) : ℝ :=
  Real.sin (angle rate frequency) / (2 * max q 0.01)

noncomputable def amplitude (gainDb : ℝ) : ℝ :=
  10 ^ (gainDb / 40)

/-- The polynomials of a designed filter before the division. -/
noncomputable def undivided (kind : Response) (rate frequency q gainDb : ℝ) : Raw ℝ :=
  raw kind (Real.cos (angle rate frequency)) (bandwidth rate frequency q) (amplitude gainDb)

theorem design_eq (kind : Response) (rate frequency q gainDb : ℝ) :
    design kind rate frequency q gainDb = (undivided kind rate frequency q gainDb).normalize := by
  simp [design, undivided, bandwidth, angle, amplitude, Elementary.pi, Elementary.cos,
    Elementary.sin, Elementary.pow]

theorem angle_mem {rate : ℝ} (hrate : 8000 ≤ rate) (frequency : ℝ) :
    0 < angle rate frequency ∧ angle rate frequency < Real.pi := by
  have hpos : 0 < rate := by linarith
  have hrange : (1 : ℝ) ≤ rate * 0.49 := by linarith
  obtain ⟨hlow, hhigh⟩ := Scalar.clamp_mem_real hrange frequency
  have hpi := Real.pi_pos
  refine ⟨?_, ?_⟩
  · have hfrequency : 0 < Scalar.clamp frequency 1 (rate * 0.49) := by linarith
    exact div_pos (by positivity) hpos
  · rw [angle, div_lt_iff₀ hpos]
    nlinarith

theorem undivided_stable (kind : Response) {rate : ℝ} (hrate : 8000 ≤ rate)
    (frequency q gainDb : ℝ) : (undivided kind rate frequency q gainDb).Stable := by
  obtain ⟨hpos, hlt⟩ := angle_mem hrate frequency
  have hsin : 0 < Real.sin (angle rate frequency) := Real.sin_pos_of_pos_of_lt_pi hpos hlt
  have hcos : |Real.cos (angle rate frequency)| < 1 := by
    have hcircle := Real.sin_sq_add_cos_sq (angle rate frequency)
    rw [← sq_lt_one_iff_abs_lt_one]
    linarith [pow_pos hsin 2]
  have hbandwidth : 0 < bandwidth rate frequency q := by
    have hq : (0 : ℝ) < max q 0.01 := lt_max_of_lt_right (by norm_num)
    exact div_pos hsin (by positivity)
  have hamplitude : 0 < amplitude gainDb := Real.rpow_pos_of_pos (by norm_num) _
  exact raw_stable kind hcos hbandwidth hamplitude

/-- A filter of any response, designed at a rate of 8000 or more for any
frequency, resonance and gain, is divided by a positive coefficient and lies in
the triangle.  Its poles lie inside the unit circle, and whatever is in its memory,
it rings out. -/
theorem design_rings_out (kind : Response) {rate : ℝ} (hrate : 8000 ≤ rate)
    (frequency q gainDb : ℝ) :
    let r := undivided kind rate frequency q gainDb
    let c := design kind rate frequency q gainDb
    c = r.normalize ∧ 0 < r.a0 ∧ |c.a2| < 1 ∧ |c.a1| < 1 + c.a2 ∧
      (∀ z : ℂ, z ^ 2 + c.a1 * z + c.a2 = 0 → ‖z‖ < 1) ∧
      ∀ s, ∃ bound r : ℝ, 0 < r ∧ r < 1 ∧ ∀ n, |Biquad.ringing c s n| ≤ bound * r ^ n := by
  intro r c
  have hdesign : c = r.normalize := design_eq kind rate frequency q gainDb
  have hr : r.Stable := undivided_stable kind hrate frequency q gainDb
  have hc : c.Stable := by
    rw [hdesign]
    exact hr.normalize
  exact ⟨hdesign, hr.leading, hc.second, hc.first, fun z hz => hc.norm_pole_lt_one hz,
    fun s => hc.decays (Biquad.ringing_recurrence c s)⟩

/-- A shelf at the lowest rate, cut by forty decibels, with a frequency above the
range and a resonance below it. -/
theorem design_rings_out_beyond_ranges :
    let c : Coefficients ℝ := design .lowShelf 8000 1000000 (-5) (-40)
    (8000 : ℝ) ≤ 8000 ∧ |c.a2| < 1 ∧ |c.a1| < 1 + c.a2 ∧
      (∀ z : ℂ, z ^ 2 + c.a1 * z + c.a2 = 0 → ‖z‖ < 1) ∧
      ∃ bound r : ℝ, 0 < r ∧ r < 1 ∧ ∀ n, |Biquad.ringing c ⟨1, -1⟩ n| ≤ bound * r ^ n := by
  obtain ⟨-, -, hsecond, hfirst, hpoles, hrings⟩ :=
    design_rings_out .lowShelf (le_refl 8000) 1000000 (-5) (-40)
  exact ⟨le_refl _, hsecond, hfirst, hpoles, hrings ⟨1, -1⟩⟩

end Coefficients

end Multisample
