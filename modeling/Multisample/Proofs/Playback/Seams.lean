import Mathlib.Algebra.Order.Floor.Semifield
import Multisample.Proofs.Playback.Looping

/-!
# The seam of a forward loop

Through a crossfade a forward loop sounds like one curve.  From a frame to the
next it is a blend of two straight lines, and each such piece ends where the one
that is played after it begins; across the seam that holds because the lead-in
has replaced the loop by then.  The slope of a piece comes from the frames next
to each other, from the share of the lead-in, and in the last piece from the way
back to the first frame, of which the crossfade has left no more than one part
in its length.
-/

namespace Multisample

/-! ## Curves in pieces -/

/-- The point `t` of the way from one number to another. -/
def between (p q t : ℝ) : ℝ :=
  p + (q - p) * t

@[simp] theorem between_zero (p q : ℝ) : between p q 0 = p := by
  simp [between]

@[simp] theorem between_one (p q : ℝ) : between p q 1 = q := by
  simp [between]

theorem abs_between_sub_le {p q d s t : ℝ} (hd : |q - p| ≤ d) (hst : s ≤ t) :
    |between p q t - between p q s| ≤ d * (t - s) := by
  have hline : between p q t - between p q s = (q - p) * (t - s) := by
    unfold between
    ring
  rw [hline, abs_mul, abs_of_nonneg (sub_nonneg.mpr hst)]
  exact mul_le_mul_of_nonneg_right hd (sub_nonneg.mpr hst)

theorem abs_between_sub_between_le {p q p' q' b t : ℝ} (ht : 0 ≤ t ∧ t ≤ 1) (hp : |p| ≤ b)
    (hq : |q| ≤ b) (hp' : |p'| ≤ b) (hq' : |q'| ≤ b) :
    |between p q t - between p' q' t| ≤ 2 * b := by
  have hmean (x y : ℝ) : between x y t = x * (1 - t) + y * t := by
    unfold between
    ring
  rw [hmean, hmean, two_mul]
  exact (abs_sub _ _).trans (add_le_add (abs_between_le ht hp hq) (abs_between_le ht hp' hq'))

/-- Two points that move, and the share of the second one that moves, too. -/
theorem abs_between_between_sub_le {p p' q q' u u' : ℝ} (hu0 : 0 ≤ u) (hu1 : u ≤ 1) :
    |between p' q' u' - between p q u| ≤
      |p' - p| * (1 - u) + |q' - q| * u + |q' - p'| * |u' - u| := by
  have hparts : between p' q' u' - between p q u =
      (p' - p) * (1 - u) + (q' - q) * u + (q' - p') * (u' - u) := by
    unfold between
    ring
  calc |between p' q' u' - between p q u|
      ≤ |(p' - p) * (1 - u) + (q' - q) * u| + |(q' - p') * (u' - u)| := hparts ▸ abs_add_le _ _
    _ ≤ |(p' - p) * (1 - u)| + |(q' - q) * u| + |(q' - p') * (u' - u)| := by
        gcongr
        exact abs_add_le _ _
    _ = |p' - p| * (1 - u) + |q' - q| * u + |q' - p'| * |u' - u| := by
        rw [abs_mul, abs_mul, abs_mul, abs_of_nonneg hu0, abs_of_nonneg (sub_nonneg.mpr hu1)]

/-- A curve whose slope is bounded from each whole number to the next has that
bound everywhere. -/
theorem abs_sub_le_of_pieces {f : ℝ → ℝ} {slope : ℝ}
    (h : ∀ (k : ℕ) (s t : ℝ), 0 ≤ s → s ≤ t → t ≤ 1 → |f (k + t) - f (k + s)| ≤ slope * (t - s))
    {p q : ℝ} (hp : 0 ≤ p) (hpq : p ≤ q) : |f q - f p| ≤ slope * (q - p) := by
  have hpieces (k : ℕ) (s : ℝ) (hs0 : 0 ≤ s) (hs1 : s ≤ 1) (n : ℕ) : ∀ t : ℝ, 0 ≤ t → t ≤ 1 →
      s ≤ n + t → |f ((k + n : ℕ) + t) - f (k + s)| ≤ slope * (n + t - s) := by
    -- Each further piece is passed from its beginning, where the last one ends.
    induction n with
    | zero =>
        intro t _ ht1 hst
        rw [Nat.cast_zero, zero_add] at hst ⊢
        exact h k s t hs0 hst ht1
    | succ n ih =>
        intro t ht0 ht1 _
        have hjoin : (((k + n : ℕ) : ℝ) + 1) = ((k + (n + 1) : ℕ) : ℝ) + 0 := by
          push_cast
          ring
        have hbefore := ih 1 zero_le_one le_rfl (hs1.trans (le_add_of_nonneg_left n.cast_nonneg))
        have hlast := h (k + (n + 1)) 0 t le_rfl ht0 ht1
        rw [hjoin] at hbefore
        calc |f ((k + (n + 1) : ℕ) + t) - f (k + s)|
            ≤ |f ((k + (n + 1) : ℕ) + t) - f ((k + (n + 1) : ℕ) + 0)| +
                |f ((k + (n + 1) : ℕ) + 0) - f (k + s)| := abs_sub_le _ _ _
          _ ≤ slope * (t - 0) + slope * (n + 1 - s) := add_le_add hlast hbefore
          _ = slope * ((n + 1 : ℕ) + t - s) := by
              push_cast
              ring
  obtain ⟨n, hn⟩ := Nat.exists_eq_add_of_le (Nat.floor_mono hpq)
  have hp1 := Nat.lt_floor_add_one p
  have hq0 := Nat.floor_le (hp.trans hpq)
  have hq1 := Nat.lt_floor_add_one q
  have hwhole := hpieces ⌊p⌋₊ (p - ⌊p⌋₊) (sub_nonneg.mpr (Nat.floor_le hp)) (by linarith) n
    (q - ⌊q⌋₊) (sub_nonneg.mpr hq0) (by linarith)
  rw [← hn] at hwhole
  have hcast : (⌊q⌋₊ : ℝ) = ⌊p⌋₊ + n := by exact_mod_cast hn
  have hway : (n : ℝ) + (q - ⌊q⌋₊) - (p - ⌊p⌋₊) = q - p := by linarith
  rw [hway, add_sub_cancel, add_sub_cancel] at hwhole
  exact hwhole (by linarith)

/-! ## The frames of a loop in the order they are played -/

namespace ResolvedLoop

variable {frames : ℕ} {l : ResolvedLoop}

/-- The frame that a forward loop plays after another. -/
def following (l : ResolvedLoop) (j : ℕ) : ℕ :=
  if j + 1 = l.stop then l.start else j + 1

/-- The frame that a forward loop has come to after so many. -/
def frameAfter (l : ResolvedLoop) (k : ℕ) : ℕ :=
  if k < l.stop then k else l.start + (k - l.start) % (l.stop - l.start)

theorem Fits.frameAfter_lt (h : l.Fits frames) (k : ℕ) : l.frameAfter k < l.stop := by
  have hstart := h.start_lt_stop
  unfold frameAfter
  split
  · assumption
  · have hmod := Nat.mod_lt (k - l.start) (Nat.sub_pos_of_lt hstart)
    omega

theorem Fits.frameAfter_succ (h : l.Fits frames) (k : ℕ) :
    l.frameAfter (k + 1) = l.following (l.frameAfter k) := by
  have hstart := h.start_lt_stop
  unfold frameAfter following
  rcases lt_trichotomy (k + 1) l.stop with hlt | heq | hgt
  · rw [if_pos hlt, if_pos (Nat.lt_of_succ_lt hlt), if_neg hlt.ne]
  · have hlast : k < l.stop := by omega
    simp only [if_neg heq.not_lt, if_pos hlast, if_pos heq]
    rw [heq, Nat.mod_self, Nat.add_zero]
  · have hbehind : ¬ k < l.stop := by omega
    have hround : k + 1 - l.start = k - l.start + 1 := by omega
    have hmod := Nat.mod_lt (k - l.start) (Nat.sub_pos_of_lt hstart)
    simp only [if_neg hgt.not_gt, if_neg hbehind]
    rw [hround, ← Nat.mod_add_mod]
    by_cases hend : (k - l.start) % (l.stop - l.start) + 1 = l.stop - l.start
    · rw [hend, Nat.mod_self, if_pos (by omega), Nat.add_zero]
    · rw [Nat.mod_eq_of_lt (by omega), if_neg (by omega), Nat.add_assoc]

/-- One side of what a crossfaded forward loop sounds like, `t` of the way from a
frame to the next. -/
noncomputable def piece (l : ResolvedLoop) (x : ℕ → ℝ) (j : ℕ) (t : ℝ) : ℝ :=
  let plain := between (x j) (x (l.following j)) t
  let lead := j - (l.stop - l.start)
  if l.stop ≤ j + l.crossfade then
    between plain (between (x lead) (x (lead + 1)) t)
      (((j + l.crossfade - l.stop : ℕ) + t) / l.crossfade)
  else plain

/-- A piece ends where the piece begins that is played after it. -/
theorem Roomy.piece_one (h : l.Roomy frames) (hdirection : l.pingPong = false)
    (hfade : 0 < l.crossfade) (x : ℕ → ℝ) {j : ℕ} (hj : j < l.stop) :
    l.piece x j 1 = l.piece x (l.following j) 0 := by
  have hlead := h.crossfade_le hdirection
  have hlength := h.crossfade_le_length
  have hpos : (l.crossfade : ℝ) ≠ 0 := Nat.cast_ne_zero.mpr hfade.ne'
  unfold piece
  simp only [between_zero, between_one, add_zero]
  by_cases hend : j + 1 = l.stop
  · -- The lead-in has come to the start of the loop and is all that is heard.
    have hfollowing : l.following j = l.start := if_pos hend
    have hstart : j - (l.stop - l.start) + 1 = l.start := by omega
    have hall : ((j + l.crossfade - l.stop : ℕ) + 1 : ℝ) = l.crossfade := by
      norm_cast
      omega
    rw [if_pos (by omega), hfollowing, hstart, hall, div_self hpos, between_one]
    split
    · have hnone : l.start + l.crossfade - l.stop = 0 := by omega
      rw [hnone, Nat.cast_zero, zero_div, between_zero]
    · rfl
  · have hfollowing : l.following j = j + 1 := if_neg hend
    rw [hfollowing]
    by_cases hin : l.stop ≤ j + l.crossfade
    · have hnext : j + 1 - (l.stop - l.start) = j - (l.stop - l.start) + 1 := by omega
      have hmore : ((j + 1 + l.crossfade - l.stop : ℕ) : ℝ) =
          (j + l.crossfade - l.stop : ℕ) + 1 := by
        norm_cast
        omega
      rw [if_pos hin, if_pos (by omega), hnext, hmore]
    · rw [if_neg hin]
      split
      · have hnone : j + 1 + l.crossfade - l.stop = 0 := by omega
        rw [hnone, Nat.cast_zero, zero_div, between_zero]
      · rfl

section slope

variable {x : ℕ → ℝ} {D P s t : ℝ} {j : ℕ}

/-- The loop itself climbs like its frames; from the last of them back to the
first it may climb more, but then little of it is left. -/
theorem plain_slope (hfade : 0 < l.crossfade)
    (hD : ∀ i, i + 1 < l.stop → |x (i + 1) - x i| ≤ D) (hP : ∀ i, |x i| ≤ P) (hrough : 0 ≤ D)
    (hj : j < l.stop) (hin : l.stop ≤ j + l.crossfade) (hs : 0 ≤ s) (hst : s ≤ t) (ht : t ≤ 1) :
    |between (x j) (x (l.following j)) t - between (x j) (x (l.following j)) s| *
        (1 - ((j + l.crossfade - l.stop : ℕ) + s) / l.crossfade) ≤
      (D * (1 - ((j + l.crossfade - l.stop : ℕ) + s) / l.crossfade) + 2 * P / l.crossfade) *
        (t - s) := by
  have hpos : (0 : ℝ) < l.crossfade := Nat.cast_pos.mpr hfade
  have hloud : 0 ≤ P := (abs_nonneg _).trans (hP 0)
  have hway : 0 ≤ t - s := sub_nonneg.mpr hst
  have hroom : ((j + l.crossfade - l.stop : ℕ) : ℝ) + 1 ≤ l.crossfade := by
    norm_cast
    omega
  set share := ((j + l.crossfade - l.stop : ℕ) + s) / (l.crossfade : ℝ) with hshare
  have hleft : 0 ≤ 1 - share := by
    rw [sub_nonneg, hshare, div_le_one hpos]
    linarith
  by_cases hend : j + 1 = l.stop
  · have hlast : 1 - share ≤ 1 / l.crossfade := by
      have hcount : ((j + l.crossfade - l.stop : ℕ) : ℝ) + 1 = l.crossfade := by
        norm_cast
        omega
      have hrest : 1 - share = (1 - s) / l.crossfade := by
        rw [hshare, ← hcount]
        field_simp
        ring
      rw [hrest]
      gcongr
      linarith
    have hstep : |x (l.following j) - x j| ≤ 2 * P := by
      rw [two_mul]
      exact (abs_sub _ _).trans (add_le_add (hP _) (hP _))
    calc |between (x j) (x (l.following j)) t - between (x j) (x (l.following j)) s| * (1 - share)
        ≤ 2 * P * (t - s) * (1 / l.crossfade) := by
          gcongr
          exact abs_between_sub_le hstep hst
      _ = 2 * P / l.crossfade * (t - s) := by ring
      _ ≤ (D * (1 - share) + 2 * P / l.crossfade) * (t - s) := by
          gcongr
          exact le_add_of_nonneg_left (mul_nonneg hrough hleft)
  · have hnext : l.following j = j + 1 := if_neg hend
    rw [hnext]
    calc |between (x j) (x (j + 1)) t - between (x j) (x (j + 1)) s| * (1 - share)
        ≤ D * (t - s) * (1 - share) := by
          gcongr
          exact abs_between_sub_le (hD j (by omega)) hst
      _ = D * (1 - share) * (t - s) := by ring
      _ ≤ (D * (1 - share) + 2 * P / l.crossfade) * (t - s) := by
          gcongr
          exact le_add_of_nonneg_right (by positivity)

/-- The slope of a piece, where adjacent frames differ by at most `D` and no
sample is louder than `P`. -/
theorem Roomy.piece_slope (h : l.Roomy frames) (hdirection : l.pingPong = false)
    (hfade : 0 < l.crossfade) (hD : ∀ i, i + 1 < l.stop → |x (i + 1) - x i| ≤ D)
    (hP : ∀ i, |x i| ≤ P) (hj : j < l.stop) (hs : 0 ≤ s) (hst : s ≤ t) (ht : t ≤ 1) :
    |l.piece x j t - l.piece x j s| ≤ (D + 4 * P / l.crossfade) * (t - s) := by
  have hlead := h.crossfade_le hdirection
  have hstart := h.start_lt_stop
  have hpos : (0 : ℝ) < l.crossfade := Nat.cast_pos.mpr hfade
  have hloud : 0 ≤ P := (abs_nonneg _).trans (hP 0)
  have hway : 0 ≤ t - s := sub_nonneg.mpr hst
  have hrough : 0 ≤ D := (abs_nonneg _).trans (hD 0 (by omega))
  unfold piece
  split
  · rename_i hin
    have hplain := plain_slope hfade hD hP hrough hj hin hs hst ht
    have hroom : ((j + l.crossfade - l.stop : ℕ) : ℝ) + 1 ≤ l.crossfade := by
      norm_cast
      omega
    set before := j - (l.stop - l.start) with hbefore
    set done : ℝ := ((j + l.crossfade - l.stop : ℕ) : ℝ)
    have hshare0 : 0 ≤ (done + s) / l.crossfade := by positivity
    have hshare1 : (done + s) / l.crossfade ≤ 1 := (div_le_one hpos).mpr (by linarith)
    have hmoves : |(done + t) / l.crossfade - (done + s) / l.crossfade| = (t - s) / l.crossfade := by
      rw [← sub_div, add_sub_add_left_eq_sub, abs_of_nonneg (div_nonneg hway hpos.le)]
    have hled : |between (x before) (x (before + 1)) t - between (x before) (x (before + 1)) s| ≤
        D * (t - s) := abs_between_sub_le (hD before (by omega)) hst
    have hapart : |between (x before) (x (before + 1)) t - between (x j) (x (l.following j)) t| ≤
        2 * P := abs_between_sub_between_le ⟨hs.trans hst, ht⟩ (hP _) (hP _) (hP _) (hP _)
    refine (abs_between_between_sub_le hshare0 hshare1).trans ?_
    rw [hmoves]
    calc _ ≤ (D * (1 - (done + s) / l.crossfade) + 2 * P / l.crossfade) * (t - s) +
          D * (t - s) * ((done + s) / l.crossfade) + 2 * P * ((t - s) / l.crossfade) := by
          gcongr
      _ = (D + 4 * P / l.crossfade) * (t - s) := by ring
  · rename_i hbefore
    have hnext : l.following j = j + 1 := if_neg (by omega)
    rw [hnext]
    calc |between (x j) (x (j + 1)) t - between (x j) (x (j + 1)) s|
        ≤ D * (t - s) := abs_between_sub_le (hD j (by omega)) hst
      _ ≤ (D + 4 * P / l.crossfade) * (t - s) := by
          gcongr
          exact le_add_of_nonneg_right (by positivity)

end slope

end ResolvedLoop

/-! ## The curve of a loop -/

namespace LoopReading

variable {frames : ℕ} {l : ResolvedLoop}

/-- Between two frames a forward loop reads these two, and in its crossfade the
two that are as far in front of its start as they are in front of its end. -/
theorem forward_natCast_add (h : l.Roomy frames) (hdirection : l.pingPong = false)
    (hfade : 0 < l.crossfade) {j : ℕ} (hj : j < l.stop) {t : ℝ} (h0 : 0 ≤ t) (h1 : t < 1) :
    (forward l ((j : ℝ) + t) : LoopReading ℝ ℝ) =
      ⟨⟨j, l.following j, t⟩, if l.stop ≤ j + l.crossfade then
        some ((j - (l.stop - l.start) : ℕ) + t,
          ((j + l.crossfade - l.stop : ℕ) + t) / l.crossfade)
        else none⟩ := by
  have hlead := h.crossfade_le hdirection
  have hstart := h.start_lt_stop
  have hinside : (j : ℝ) + t < l.stop := by
    have hnext : ((j + 1 : ℕ) : ℝ) ≤ l.stop := Nat.cast_le.mpr hj
    push_cast at hnext
    linarith
  have hfadeStart : ((l.stop - l.crossfade : ℕ) : ℝ) ≤ j + t ↔ l.stop ≤ j + l.crossfade := by
    rw [← Nat.le_floor_iff (add_nonneg (Nat.cast_nonneg j) h0), ← Scalar.toNat_real,
      Scalar.toNat_natCast_add h0 h1]
    omega
  simp only [forward, Scalar.toNat_natCast_add h0 h1, Scalar.fract_natCast_add h0 h1,
    Scalar.narrow_real, Scalar.ofNat_real, Scalar.le_real, Scalar.lt_real, decide_eq_true_eq,
    hfade, hfadeStart, hinside, true_and, and_true]
  by_cases hin : l.stop ≤ j + l.crossfade
  · have hback : (j : ℝ) + t - (l.stop - l.start : ℕ) = (j - (l.stop - l.start) : ℕ) + t := by
      rw [Nat.cast_sub (by omega : l.stop - l.start ≤ j)]
      ring
    have hdone : (j : ℝ) + t - (l.stop - l.crossfade : ℕ) = (j + l.crossfade - l.stop : ℕ) + t := by
      have hcount : j + l.crossfade - l.stop = j - (l.stop - l.crossfade) := by omega
      rw [hcount, Nat.cast_sub (by omega : l.stop - l.crossfade ≤ j)]
      ring
    rw [if_pos hin, if_pos hin, hback, hdone]
    rfl
  · rw [if_neg hin, if_neg hin]
    rfl

theorem forward_side (h : l.Roomy frames) (hdirection : l.pingPong = false)
    (hfade : 0 < l.crossfade) {j : ℕ} (hj : j < l.stop) {t : ℝ} (h0 : 0 ≤ t) (h1 : t < 1)
    {side : Frame ℝ → ℝ} (hside : ∀ x y t, side (x.blend y t) = between (side x) (side y) t)
    (a : AudioBuffer ℝ) :
    side ((forward l ((j : ℝ) + t) : LoopReading ℝ ℝ).frame a) =
      l.piece (fun i => side (a.stereo i)) j t := by
  rw [forward_natCast_add h hdirection hfade hj h0 h1, ResolvedLoop.piece]
  split
  · simp only [frame, Lookup.frame, hside, readAt_natCast_add a h0 h1]
  · simp only [frame, Lookup.frame, hside]

end LoopReading

namespace Streamer

variable {frames : ℕ} {l : ResolvedLoop}

theorem forwardAdvance_natCast_add (h : l.Fits frames) (k : ℕ) {t : ℝ} (h0 : 0 ≤ t) (h1 : t < 1) :
    forwardAdvance l ((k : ℝ) + t) = l.frameAfter k + t := by
  have hstart := h.start_lt_stop
  simp only [forwardAdvance, Scalar.ofNat_real, Scalar.le_real, decide_eq_true_eq,
    ResolvedLoop.frameAfter]
  by_cases hk : k < l.stop
  · have hnext : ((k + 1 : ℕ) : ℝ) ≤ l.stop := Nat.cast_le.mpr hk
    push_cast at hnext
    rw [if_pos hk, if_neg (by linarith)]
  · have hpast : (l.stop : ℝ) ≤ k := Nat.cast_le.mpr (not_lt.mp hk)
    have hlength : (0 : ℝ) < (l.stop - l.start : ℕ) := Nat.cast_pos.mpr (Nat.sub_pos_of_lt hstart)
    have hway : (k : ℝ) + t - l.start = (k - l.start : ℕ) + t := by
      rw [Nat.cast_sub (by omega : l.start ≤ k)]
      ring
    have hnonneg : (0 : ℝ) ≤ (k - l.start : ℕ) + t := add_nonneg (Nat.cast_nonneg _) h0
    -- The rounds that are completed depend on whole frames only.
    have hrounds : (⌊((k - l.start : ℕ) + t) / (l.stop - l.start : ℕ)⌋ : ℝ) =
        ((k - l.start) / (l.stop - l.start) : ℕ) := by
      rw [← natCast_floor_eq_intCast_floor (div_nonneg hnonneg hlength.le), Nat.floor_div_natCast,
        ← Scalar.toNat_real, Scalar.toNat_natCast_add h0 h1]
    have hrest : (((k - l.start : ℕ) : ℝ)) = (l.stop - l.start : ℕ) *
        ((k - l.start) / (l.stop - l.start) : ℕ) + ((k - l.start) % (l.stop - l.start) : ℕ) := by
      exact_mod_cast (Nat.div_add_mod (k - l.start) (l.stop - l.start)).symm
    rw [if_neg hk, if_pos (by linarith), hway, Scalar.rem_real hnonneg hlength, hrounds, Nat.cast_add]
    linarith

theorem forwardAdvance_of_lt {position : ℝ} (hlt : position < l.stop) :
    forwardAdvance l position = position := by
  rw [forwardAdvance, Scalar.ofNat_real, Scalar.le_real, if_neg]
  exact fun hle => absurd (of_decide_eq_true hle) (not_le.mpr hlt)

/-- What a side of a forward loop sounds like after some way from the start of the buffer. -/
theorem curve_piece (h : l.Roomy frames) (hdirection : l.pingPong = false)
    (hfade : 0 < l.crossfade) (k : ℕ) {t : ℝ} (h0 : 0 ≤ t) (h1 : t ≤ 1)
    {side : Frame ℝ → ℝ} (hside : ∀ x y t, side (x.blend y t) = between (side x) (side y) t)
    (a : AudioBuffer ℝ) :
    side ((LoopReading.forward l (forwardAdvance l ((k : ℝ) + t)) : LoopReading ℝ ℝ).frame a) =
      l.piece (fun i => side (a.stereo i)) (l.frameAfter k) t := by
  have hopen (k : ℕ) {t : ℝ} (h0 : 0 ≤ t) (h1 : t < 1) :
      side ((LoopReading.forward l (forwardAdvance l ((k : ℝ) + t)) : LoopReading ℝ ℝ).frame a) =
        l.piece (fun i => side (a.stereo i)) (l.frameAfter k) t := by
    rw [forwardAdvance_natCast_add h.toFits k h0 h1]
    exact LoopReading.forward_side h hdirection hfade (h.frameAfter_lt k) h0 h1 hside a
  rcases h1.lt_or_eq with hlt | rfl
  · exact hopen k h0 hlt
  · rw [h.piece_one hdirection hfade _ (h.frameAfter_lt k), ← h.frameAfter_succ k,
      ← hopen (k + 1) le_rfl one_pos]
    push_cast
    rw [add_zero]

/-- A side of what a streamer returns at a call and at the next, as points of
one curve. -/
theorem side_next_sub_le (a : AudioBuffer ℝ) {s : Streamer ℝ} (hs : s.Inside l)
    (h : l.Roomy a.frames) (hdirection : l.pingPong = false) (hfade : 0 < l.crossfade)
    {side : Frame ℝ → ℝ} (hside : ∀ x y t, side (x.blend y t) = between (side x) (side y) t)
    {D P : ℝ}
    (hD : ∀ i, i + 1 < l.stop → |side (a.stereo (i + 1)) - side (a.stereo i)| ≤ D)
    (hP : ∀ i, |side (a.stereo i)| ≤ P) {step : ℝ} (hstep : 0 ≤ step) (step' : ℝ) :
    |side ((s.next a step).1.next a step').2 - side (s.next a step).2| ≤
      step * (D + 4 * P / l.crossfade) := by
  let curve (position : ℝ) : ℝ :=
    side ((LoopReading.forward l (forwardAdvance l position) : LoopReading ℝ ℝ).frame a)
  have hslope (k : ℕ) (t u : ℝ) (h0 : 0 ≤ t) (htu : t ≤ u) (h1 : u ≤ 1) :
      |curve (k + u) - curve (k + t)| ≤ (D + 4 * P / l.crossfade) * (u - t) := by
    simp only [curve]
    rw [curve_piece h hdirection hfade k (h0.trans htu) h1 hside a,
      curve_piece h hdirection hfade k h0 (htu.trans h1) hside a]
    exact h.piece_slope hdirection hfade hD hP (h.frameAfter_lt k) h0 htu h1
  have hnext := (hs.next h.toFits a hstep).1
  have hhere : side (s.next a step).2 = curve s.position := by
    simp only [curve]
    rw [hs.next_frame, reading, if_neg (by simp [hdirection]),
      forwardAdvance_of_lt (hs.holds.forward hdirection)]
  have hthere : side ((s.next a step).1.next a step').2 = curve (s.position + step) := by
    simp only [curve]
    rw [hnext.next_frame, reading, if_neg (by simp [hdirection]), hs.next_position,
      if_neg (by simp [hdirection])]
  have hbound := abs_sub_le_of_pieces hslope hs.holds.nonneg (le_add_of_nonneg_right hstep)
  rw [hthere, hhere]
  calc |curve (s.position + step) - curve s.position|
      ≤ (D + 4 * P / l.crossfade) * (s.position + step - s.position) := hbound
    _ = step * (D + 4 * P / l.crossfade) := by ring

/-- Between two calls a crossfaded forward loop moves by no more than its step
times a slope: the largest difference between adjacent frames in front of its
end, and four times the loudest sample over the length of the crossfade. -/
theorem crossfaded_loop_joins (a : AudioBuffer ℝ) {l : SampleLoop} {r : ResolvedLoop}
    (hresolve : l.resolve a.frames = .ok r) (hdirection : r.pingPong = false)
    (hfade : 1 ≤ r.crossfade) {D P : ℝ}
    (hD : ∀ i, i + 1 < r.stop → |(a.stereo (i + 1)).left - (a.stereo i).left| ≤ D ∧
      |(a.stereo (i + 1)).right - (a.stereo i).right| ≤ D)
    (hP : ∀ x ∈ a.samples, |x| ≤ P) {steps : List ℝ} (hsteps : ∀ step ∈ steps, 0 ≤ step)
    {step : ℝ} (hstep : 0 ≤ step) (later : ℝ) :
    let s := (start (some r)).run a steps
    let here := (s.next a step).2
    let there := ((s.next a step).1.next a later).2
    |there.left - here.left| ≤ step * (D + 4 * P / r.crossfade) ∧
      |there.right - here.right| ≤ step * (D + 4 * P / r.crossfade) := by
  intro s here there
  have hroomy := SampleLoop.resolve_roomy hresolve
  have hfits := hroomy.toFits
  have hinside : s.Inside r := ((start_inside hfits).run hfits a hsteps).1
  have hframes : 0 < a.frames :=
    (Nat.zero_lt_of_lt hfits.start_lt_stop).trans_le hfits.stop_le
  have hloud := a.abs_stereo_le hP hframes
  constructor
  · exact side_next_sub_le a hinside hroomy hdirection hfade (fun _ _ _ => rfl)
      (fun i hi => (hD i hi).1) (fun i => (hloud i).1) hstep later
  · exact side_next_sub_le a hinside hroomy hdirection hfade (fun _ _ _ => rfl)
      (fun i hi => (hD i hi).2) (fun i => (hloud i).2) hstep later

/-- Two frames of a ramp with a crossfade of one frame, played by a step that
leads round the loop more than once. -/
theorem crossfaded_loop_joins_ramp :
    let a : AudioBuffer ℝ := AudioBuffer.ofSamples #[0, 1, 2, 3] 1 48000
    let r : ResolvedLoop := ⟨1, 3, 1, false⟩
    let s := (start (some r)).run a [5 / 2]
    (⟨1, 3, 1, false⟩ : SampleLoop).resolve a.frames = .ok r ∧
      (∀ i, i + 1 < r.stop → (a.stereo (i + 1)).left - (a.stereo i).left = 1) ∧
      |((s.next a 5).1.next a 5).2.left - (s.next a 5).2.left| ≤ 5 * (1 + 4 * 3 / (1 : ℕ)) := by
  intro a r s
  have hresolve : (⟨1, 3, 1, false⟩ : SampleLoop).resolve a.frames = .ok r := by
    decide
  have hramp : ∀ i, i + 1 < r.stop → (a.stereo (i + 1)).left - (a.stereo i).left = 1 ∧
      (a.stereo (i + 1)).right - (a.stereo i).right = 1 := by
    have hstereo : a.stereo 0 = ⟨0, 0⟩ ∧ a.stereo 1 = ⟨1, 1⟩ ∧ a.stereo 2 = ⟨2, 2⟩ :=
      ⟨rfl, rfl, rfl⟩
    intro i hi
    have hi : i + 1 < 3 := hi
    obtain rfl | rfl : i = 0 ∨ i = 1 := by omega
    · rw [hstereo.1, hstereo.2.1]
      norm_num
    · rw [hstereo.2.1, hstereo.2.2]
      norm_num
  have hloud : ∀ x ∈ a.samples, |x| ≤ 3 := by
    intro x hx
    have hx : x ∈ #[(0 : ℝ), 1, 2, 3] := hx
    simp only [List.mem_toArray, List.mem_cons, List.not_mem_nil, or_false] at hx
    rcases hx with rfl | rfl | rfl | rfl <;> norm_num
  refine ⟨hresolve, fun i hi => (hramp i hi).1, ?_⟩
  refine (crossfaded_loop_joins a hresolve rfl le_rfl (D := 1) (P := 3) ?_ hloud ?_ (by norm_num) 5).1
  · intro i hi
    rw [(hramp i hi).1, (hramp i hi).2, abs_one]
    exact ⟨le_rfl, le_rfl⟩
  · norm_num

end Streamer

end Multisample
