import Mathlib.Algebra.Order.Floor.Semiring
import Multisample.Proofs.Playback.Looping

/-!
# Playing a buffer once

Without a loop a streamer reads on by one step at each call and finishes with
the step that leads out of the buffer.  By a constant step `s` through `F` frames
that is call number `F / s`, rounded up; an empty buffer takes one call to notice.
Until then a call returns what lies around its position, and silence ever after.
-/

namespace Multisample

namespace Streamer

section

variable {σ : Type} [Scalar σ] [Precision σ ℝ] (a : AudioBuffer σ)

/-- Without a loop a position in the buffer is read and moved on, and the
streamer has finished once that leads out of the buffer. -/
theorem next_unlooped (step : ℝ) {s : Streamer ℝ} (h : s.sampleLoop = none)
    (hfinished : s.finished = false) (hinside : s.position < a.frames) :
    s.next a step = ({ s with
      position := s.position + step
      finished := decide ((a.frames : ℝ) ≤ s.position + step) },
      LoopReading.readAt a s.position) := by
  simp only [next, hfinished, h, Bool.false_eq_true, if_false, stepOnce, Scalar.le_real,
    Scalar.ofNat_real, decide_eq_true_eq, if_neg (not_le.mpr hinside)]

theorem next_outside (step : ℝ) {s : Streamer ℝ} (h : s.sampleLoop = none)
    (hfinished : s.finished = false) (houtside : (a.frames : ℝ) ≤ s.position) :
    s.next a step = ({ s with finished := true }, Frame.silence) := by
  simp only [next, hfinished, h, Bool.false_eq_true, if_false, stepOnce, Scalar.le_real,
    Scalar.ofNat_real, decide_eq_true_eq, if_pos houtside]

theorem next_of_finished (step : ℝ) {s : Streamer ℝ} (h : s.finished = true) :
    s.next a step = (s, Frame.silence) :=
  if_pos h

end

variable (a : AudioBuffer ℝ) {step : ℝ}

theorem run_replicate_succ (n : ℕ) (s : Streamer ℝ) :
    s.run a (List.replicate (n + 1) step) = ((s.run a (List.replicate n step)).next a step).1 := by
  rw [run, List.replicate_succ', List.foldl_append]
  rfl

/-- A call after the first is the last one, or a later one, exactly if the steps
before it have led out of the buffer. -/
theorem succ_lt_calls_iff (hstep : 0 < step) {frames n : ℕ} :
    n + 1 < max 1 ⌈frames / step⌉₊ ↔ (n + 1 : ℕ) * step < frames := by
  rw [← lt_div_iff₀ hstep, ← Nat.lt_ceil, lt_max_iff]
  omega

/-- The calls before the last one lead on by one step each. -/
theorem run_unlooped (hstep : 0 < step) {n : ℕ} (h : n < max 1 ⌈a.frames / step⌉₊) :
    (Streamer.start none).run a (List.replicate n step) = ⟨n * step, false, false, none⟩ := by
  induction n with
  | zero =>
      rw [Nat.cast_zero, zero_mul]
      exact start_real none
  | succ n ih =>
      have hlt := (succ_lt_calls_iff hstep).mp h
      have hnext : (n : ℝ) * step + step = (n + 1 : ℕ) * step := by
        push_cast
        ring
      rw [run_replicate_succ, ih (Nat.lt_of_succ_lt h), next_unlooped a step rfl rfl]
      · dsimp only
        rw [hnext, decide_eq_false (not_le.mpr hlt)]
      · dsimp only
        linarith

theorem run_unlooped_finished (hstep : 0 < step) {n : ℕ} (h : max 1 ⌈a.frames / step⌉₊ ≤ n) :
    ((Streamer.start none).run a (List.replicate n step)).finished = true := by
  induction n, h using Nat.le_induction with
  | base =>
      obtain ⟨n, hn⟩ := Nat.exists_eq_succ_of_ne_zero (n := max 1 ⌈a.frames / step⌉₊)
        (Nat.one_le_iff_ne_zero.mp (le_max_left _ _))
      rw [hn, run_replicate_succ, run_unlooped a hstep (hn ▸ Nat.lt_succ_self n)]
      have hleaves : (a.frames : ℝ) ≤ (n + 1 : ℕ) * step :=
        not_lt.mp fun hlt => absurd ((succ_lt_calls_iff hstep).mpr hlt) (hn ▸ lt_irrefl _)
      by_cases hinside : (n : ℝ) * step < a.frames
      · rw [next_unlooped a step rfl rfl hinside]
        push_cast at hleaves
        exact decide_eq_true (by dsimp only; linarith)
      · rw [next_outside a step rfl rfl (not_lt.mp hinside)]
  | succ n _ ih => rw [run_replicate_succ, next_of_finished a step ih, ih]

/-- What lies around a position is heard there; behind the buffer that is silence. -/
theorem next_unlooped_frame {s : Streamer ℝ} (h : s.sampleLoop = none) (hfinished : s.finished = false)
    {i : ℕ} {t : ℝ} (h0 : 0 ≤ t) (h1 : t < 1) (hposition : s.position = i + t) :
    (s.next a step).2 = (a.stereo i).blend (a.stereo (i + 1)) t := by
  by_cases hinside : s.position < a.frames
  · rw [next_unlooped a step h hfinished hinside, hposition, LoopReading.readAt_natCast_add a h0 h1]
  · rw [next_outside a step h hfinished (not_lt.mp hinside)]
    have hbehind : a.frames ≤ i := by
      rw [hposition] at hinside
      have hlt : (a.frames : ℝ) < (i + 1 : ℕ) := by
        push_cast
        linarith
      exact Nat.lt_succ_iff.mp (Nat.cast_lt.mp hlt)
    rw [a.stereo_of_le hbehind, a.stereo_of_le (Nat.le_succ_of_le hbehind)]
    simp [Frame.blend, Frame.silence]

/-- The streamer has finished once it was called as often as steps lead through
the buffer. -/
theorem run_unlooped_finished_iff (hstep : 0 < step) {n : ℕ} :
    ((Streamer.start none).run a (List.replicate n step)).finished = true ↔
      max 1 ⌈a.frames / step⌉₊ ≤ n := by
  refine ⟨fun hfinished => ?_, run_unlooped_finished a hstep⟩
  by_contra hbefore
  rw [run_unlooped a hstep (not_le.mp hbefore)] at hfinished
  cases hfinished

/-- Only in an empty buffer a call reads beyond the last frame. -/
theorem unlooped_inside (hstep : 0 < step) {frames n : ℕ} (h : n < max 1 ⌈frames / step⌉₊)
    (hframes : 0 < frames) : n * step < frames := by
  cases n with
  | zero => simpa using hframes
  | succ n => exact (succ_lt_calls_iff hstep).mp h

/-- A call returns what lies between the frames around its position. -/
theorem unlooped_heard (hstep : 0 < step) {n : ℕ} (h : n < max 1 ⌈a.frames / step⌉₊) {i : ℕ} {t : ℝ}
    (h0 : 0 ≤ t) (h1 : t < 1) (hposition : n * step = i + t) :
    (((Streamer.start none).run a (List.replicate n step)).next a step).2 =
      (a.stereo i).blend (a.stereo (i + 1)) t := by
  rw [run_unlooped a hstep h]
  exact next_unlooped_frame a rfl rfl h0 h1 hposition

/-- By a constant step `s` a buffer of `F` frames takes `F / s` calls, rounded
up, and at least one.  Each of them stands one step further and returns what
lies between the frames around it, where silence follows the last one; after
them there is silence.  By whole frames the calls return the buffer itself. -/
theorem unlooped_lasts (a : AudioBuffer ℝ) {step : ℝ} (hstep : 0 < step) :
    let calls := max 1 ⌈a.frames / step⌉₊
    let after (n : ℕ) := (start none : Streamer ℝ).run a (List.replicate n step)
    (∀ n, (after n).finished = true ↔ calls ≤ n) ∧
      (∀ n < calls, (after n).position = n * step ∧
        ∀ (i : ℕ) (t : ℝ), 0 ≤ t → t < 1 → n * step = i + t → (0 < a.frames → i < a.frames) ∧
          ((after n).next a step).2 = (a.stereo i).blend
            (if i + 1 < a.frames then a.stereo (i + 1) else Frame.silence) t) ∧
      (∀ n, calls ≤ n → ((after n).next a step).2 = Frame.silence) ∧
      (step = 1 → calls = max 1 a.frames ∧
        (List.range a.frames).map (fun n => ((after n).next a step).2) = a.stereoFrames) := by
  intro calls after
  refine ⟨fun n => run_unlooped_finished_iff a hstep, ?_, ?_, ?_⟩
  · intro n hn
    refine ⟨congrArg Streamer.position (run_unlooped a hstep hn), ?_⟩
    intro i t h0 h1 hposition
    constructor
    · intro hframes
      have hlt := unlooped_inside hstep hn hframes
      rw [hposition] at hlt
      exact Nat.cast_lt.mp ((le_add_of_nonneg_right h0).trans_lt hlt)
    · rw [unlooped_heard a hstep hn h0 h1 hposition]
      split
      · rfl
      · rename_i hlast
        rw [a.stereo_of_le (not_lt.mp hlast)]
  · intro n hn
    rw [next_of_finished a step (run_unlooped_finished a hstep hn)]
  · intro hone
    have hcalls : calls = max 1 a.frames := by
      simp only [calls, hone, div_one, Nat.ceil_natCast]
    refine ⟨hcalls, List.map_congr_left ?_⟩
    intro n hn
    have hlt : n < calls := hcalls ▸ (List.mem_range.mp hn).trans_le (le_max_right _ _)
    rw [unlooped_heard a hstep hlt le_rfl one_pos (by rw [hone, mul_one, add_zero])]
    simp [Frame.blend]

/-- Three frames by two thirds of a frame: the fifth call is the last one and
fades toward the silence behind the buffer. -/
theorem unlooped_lasts_third :
    let a : AudioBuffer ℝ := AudioBuffer.ofSamples #[1, 2, 3] 1 48000
    let after (n : ℕ) := (start none : Streamer ℝ).run a (List.replicate n (2 / 3))
    (after 4).finished = false ∧ ((after 4).next a (2 / 3)).2.left = 1 ∧
      (after 5).finished = true ∧ ((after 5).next a (2 / 3)).2 = Frame.silence := by
  intro a after
  obtain ⟨hfinished, hheard, hsilent, -⟩ := unlooped_lasts a (by norm_num : (0 : ℝ) < 2 / 3)
  have hcalls : max 1 ⌈(a.frames : ℝ) / (2 / 3)⌉₊ = 5 := by
    have hframes : a.frames = 3 := rfl
    have hceil : ⌈((3 : ℕ) : ℝ) / (2 / 3)⌉₊ = 5 := by
      rw [Nat.ceil_eq_iff (by norm_num)]
      norm_num
    rw [hframes, hceil]
    rfl
  rw [hcalls] at hfinished hheard hsilent
  refine ⟨?_, ?_, (hfinished 5).mpr le_rfl, hsilent 5 le_rfl⟩
  · exact Bool.eq_false_of_not_eq_true fun h => absurd ((hfinished 4).mp h) (by norm_num)
  · have hframe := ((hheard 4 (by norm_num)).2 2 (2 / 3) (by norm_num) (by norm_num)
      (by norm_num)).2
    have hthird : a.stereo 2 = ⟨3, 3⟩ := rfl
    have hlast : ¬ 2 + 1 < a.frames := by decide
    rw [hframe, hthird, if_neg hlast]
    simp only [Frame.blend, Frame.silence, Scalar.zero_real]
    show (3 : ℝ) + (0 - 3) * (2 / 3) = 1
    norm_num

end Streamer

end Multisample
