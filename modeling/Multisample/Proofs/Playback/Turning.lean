import Multisample.Proofs.Playback.Looping

/-!
# Turning points of a ping-pong loop

A ping-pong loop plays the same frames in both directions.  The crossfade at its
end is heard before and after the turn; the one at its start only on the way to
it.  So what a streamer returns at a position tells the direction it travels in,
unless the position lies outside the crossfade at the start or its reflection
there sounds the same.
-/

namespace Multisample

theorem Frame.blend_eq_left_iff {x y : Frame ℝ} {amount : ℝ} (h : amount ≠ 0) :
    x.blend y amount = x ↔ y = x := by
  have hside (p q : ℝ) : p + (q - p) * amount = p ↔ q = p := by
    rw [add_eq_left, mul_eq_zero, or_iff_left h, sub_eq_zero]
  obtain ⟨xl, xr⟩ := x
  obtain ⟨yl, yr⟩ := y
  rw [Frame.blend, Frame.mk.injEq, Frame.mk.injEq]
  exact and_congr (hside xl yl) (hside xr yr)

/-- Positions in the crossfade at the start of a loop, but not in the one at its
end, whose reflection at the start is not in front of the first frame. -/
structure ResolvedLoop.FadesAtStart (l : ResolvedLoop) (position : ℝ) : Prop where
  entered : l.start ≤ position
  near : position < l.start + l.crossfade
  before_end : position ≤ (l.stop - 1 : ℕ) - l.crossfade
  reflected : position ≤ 2 * l.start

theorem ResolvedLoop.FadesAtStart.crossfade_pos {l : ResolvedLoop} {position : ℝ}
    (h : l.FadesAtStart position) : (0 : ℝ) < l.crossfade := by
  have hnear := h.near
  have hentered := h.entered
  linarith

namespace LoopReading

variable {frames : ℕ} {l : ResolvedLoop} {position : ℝ}

/-- Outside the crossfade at the start the direction makes no difference. -/
theorem pingPong_reversed (hlast : position ≤ (l.stop - 1 : ℕ)) (h : ¬ l.FadesAtStart position) :
    (pingPong frames l position true : LoopReading ℝ ℝ) = pingPong frames l position false := by
  simp only [pingPong, Scalar.ofNat_real, Scalar.le_real, Scalar.lt_real, Scalar.zero_real,
    Bool.and_eq_true, decide_eq_true_eq, Bool.and_true, Bool.and_false, Bool.false_eq_true,
    if_false, mk.injEq, true_and]
  by_cases hend : ((l.stop - 1 : ℕ) : ℝ) - l.crossfade < position ∧ position ≤ (l.stop - 1 : ℕ)
  · rw [if_pos hend, if_pos hend]
  by_cases hnear : position < l.start + l.crossfade ∧ l.start ≤ position
  · have hbefore : position ≤ (l.stop - 1 : ℕ) - l.crossfade :=
      not_lt.mp fun hlt => hend ⟨hlt, hlast⟩
    have hfront : ¬ (0 : ℝ) ≤ l.start - (position - l.start) := fun hreflected =>
      h ⟨hnear.2, hnear.1, hbefore, by linarith⟩
    rw [if_neg hend, if_neg hend, if_pos hnear, if_neg hfront]
  · rw [if_neg hend, if_neg hend, if_neg hnear]

/-- In the crossfade at the start the frames around the position are read as
anywhere in the buffer. -/
theorem plain_of_fadesAtStart (h : l.FadesAtStart position) (reversed : Bool) :
    (pingPong frames l position reversed : LoopReading ℝ ℝ).plain = Lookup.ofPosition position := by
  have hnonneg : 0 ≤ position := (Nat.cast_nonneg _).trans h.entered
  have hlt : ⌊position⌋₊ < l.stop - 1 := by
    have hfade := h.crossfade_pos
    have hbefore := h.before_end
    rw [Nat.floor_lt hnonneg]
    linarith
  have hnext : max (min (⌊position⌋₊ + 1) (l.stop - 1)) ⌊position⌋₊ = ⌊position⌋₊ + 1 := by
    omega
  rw [Lookup.ofPosition_real hnonneg]
  simp only [pingPong, Scalar.toNat_real, Scalar.fract_real hnonneg, Scalar.narrow_real, hnext]

/-- Only on the way to the start its reflection is blended in. -/
theorem blended_of_fadesAtStart (h : l.FadesAtStart position) (reversed : Bool) :
    (pingPong frames l position reversed : LoopReading ℝ ℝ).blended =
      if reversed then
        some (2 * l.start - position, 0.5 * (1 - (position - l.start) / l.crossfade))
      else none := by
  have hsome : l.crossfade ≠ 0 := (Nat.cast_pos.mp h.crossfade_pos).ne'
  have hend : ¬ (((l.stop - 1 : ℕ) : ℝ) - l.crossfade < position ∧ position ≤ (l.stop - 1 : ℕ)) :=
    fun hend => absurd hend.1 (not_lt.mpr h.before_end)
  have hstart : position < l.start + l.crossfade ∧ (l.start : ℝ) ≤ position := ⟨h.near, h.entered⟩
  have hreflection : (l.start : ℝ) - (position - l.start) = 2 * l.start - position := by ring
  have hreflected : (0 : ℝ) ≤ 2 * l.start - position := sub_nonneg.mpr h.reflected
  simp only [pingPong, Scalar.ofNat_real, Scalar.le_real, Scalar.lt_real, Scalar.zero_real,
    Scalar.one_real, Scalar.decimal_real, Scalar.narrow_real, Bool.and_eq_true, decide_eq_true_eq,
    if_neg hsome, if_neg hend, hstart, true_and, hreflection, if_pos hreflected, and_self]

theorem frame_of_fadesAtStart (a : AudioBuffer ℝ) (h : l.FadesAtStart position) :
    (pingPong a.frames l position false : LoopReading ℝ ℝ).frame a = readAt a position ∧
      (pingPong a.frames l position true : LoopReading ℝ ℝ).frame a =
        (readAt a position).blend (readAt a (2 * l.start - position))
          (0.5 * (1 - (position - l.start) / l.crossfade)) := by
  have hnonneg : 0 ≤ position := (Nat.cast_nonneg _).trans h.entered
  have hplain : (Lookup.ofPosition position : Lookup ℝ).frame a = readAt a position := by
    rw [readAt, Scalar.max_real, Scalar.zero_real, max_eq_left hnonneg]
  constructor
  · simp only [frame, plain_of_fadesAtStart h, blended_of_fadesAtStart h, hplain,
      Bool.false_eq_true, if_false]
  · simp only [frame, plain_of_fadesAtStart h, blended_of_fadesAtStart h, hplain, if_true]

/-- Both directions sound the same exactly if the reflection at the start does
where it is blended in. -/
theorem frame_reversed_eq_iff (a : AudioBuffer ℝ) (hlast : position ≤ (l.stop - 1 : ℕ)) :
    (pingPong a.frames l position true : LoopReading ℝ ℝ).frame a =
        (pingPong a.frames l position false : LoopReading ℝ ℝ).frame a ↔
      (l.FadesAtStart position → readAt a (2 * l.start - position) = readAt a position) := by
  by_cases h : l.FadesAtStart position
  · have hshare : (0.5 : ℝ) * (1 - (position - l.start) / l.crossfade) ≠ 0 := by
      have hlt : (position - l.start) / l.crossfade < 1 := by
        rw [div_lt_one h.crossfade_pos]
        have hnear := h.near
        linarith
      linarith
    obtain ⟨hforward, hback⟩ := frame_of_fadesAtStart a h
    rw [hforward, hback, Frame.blend_eq_left_iff hshare]
    simp [h]
  · rw [pingPong_reversed hlast h]
    simp [h]

end LoopReading

/-! ## Runs that have turned round -/

namespace Streamer

variable {frames : ℕ} {l : ResolvedLoop} {position step p : ℝ}

/-- Reached from the start by steps forward that have led over a turning point:
the first of them sends the streamer back. -/
def Turned (a : AudioBuffer ℝ) (l : ResolvedLoop) (s : Streamer ℝ) : Prop :=
  ∃ before after : List ℝ, (∀ step ∈ before ++ after, 0 ≤ step) ∧
    ((start (some l)).run a before).reversed = true ∧ s = (start (some l)).run a (before ++ after)

theorem Turned.inside {a : AudioBuffer ℝ} {s : Streamer ℝ} (h : s.Turned a l)
    (hfits : l.Fits frames) : s.Inside l := by
  obtain ⟨before, after, hsteps, -, rfl⟩ := h
  exact ((start_inside hfits).run hfits a hsteps).1

theorem Turned.next_frame {a : AudioBuffer ℝ} {s : Streamer ℝ} (h : s.Turned a l)
    (hfits : l.Fits frames) (hdirection : l.pingPong = true) (step : ℝ) :
    (s.next a step).2 =
      (LoopReading.pingPong a.frames l s.position s.reversed : LoopReading ℝ ℝ).frame a := by
  rw [(h.inside hfits).next_frame, reading, if_pos hdirection]

/-- A step that leads as far beyond the end as a position lies before it turns
round to that position. -/
theorem pingPongAdvance_end (hstep : position + step = 2 * (l.stop - 1 : ℕ) - p)
    (hfirst : l.start ≤ p) (hlast : p < (l.stop - 1 : ℕ)) :
    pingPongAdvance l position step false = (p, true) := by
  have hbeyond : ((l.stop - 1 : ℕ) : ℝ) < position + step := by linarith
  have hback : ((l.stop - 1 : ℕ) : ℝ) - (position + step - (l.stop - 1 : ℕ)) = p := by linarith
  simp only [pingPongAdvance, Scalar.ofNat_real, Scalar.le_real, Scalar.lt_real, decide_eq_true_eq,
    Bool.false_eq_true, if_false, if_pos hbeyond, hback, Bool.or_true, if_true,
    Scalar.clamp_of_mem_real hfirst hlast.le]

theorem pingPongAdvance_start (hstep : position - step = 2 * l.start - p) (hfirst : l.start < p)
    (hlast : p ≤ (l.stop - 1 : ℕ)) : pingPongAdvance l position step true = (p, false) := by
  have hbeyond : position - step < l.start := by linarith
  have hback : (l.start : ℝ) + (l.start - (position - step)) = p := by linarith
  simp only [pingPongAdvance, Scalar.ofNat_real, Scalar.le_real, Scalar.lt_real, decide_eq_true_eq,
    if_true, if_pos hbeyond, hback, hfirst.le, decide_true, Bool.true_or,
    Scalar.clamp_of_mem_real hfirst.le hlast]

theorem next_pingPong (a : AudioBuffer ℝ) (hdirection : l.pingPong = true) (position step : ℝ)
    (reversed : Bool) :
    ((⟨position, reversed, false, some l⟩ : Streamer ℝ).next a step).1 =
      ⟨(pingPongAdvance l position step reversed).1, (pingPongAdvance l position step reversed).2,
        false, some l⟩ := by
  simp only [next, Bool.false_eq_true, if_false, hdirection, if_true]

theorem run_to_end (a : AudioBuffer ℝ) (hdirection : l.pingPong = true) (hfirst : l.start ≤ p)
    (hlast : p < (l.stop - 1 : ℕ)) :
    (start (some l)).run a [2 * (l.stop - 1 : ℕ) - p] = ⟨p, true, false, some l⟩ := by
  rw [start_real]
  show ((⟨0, false, false, some l⟩ : Streamer ℝ).next a _).1 = _
  rw [next_pingPong a hdirection, pingPongAdvance_end (zero_add _) hfirst hlast]

theorem run_to_both_ends (a : AudioBuffer ℝ) (hdirection : l.pingPong = true)
    (hfirst : l.start < p) (hlast : p < (l.stop - 1 : ℕ)) :
    (start (some l)).run a [2 * (l.stop - 1 : ℕ) - l.start, p - l.start] =
      ⟨p, false, false, some l⟩ := by
  show (((start (some l)).run a [2 * (l.stop - 1 : ℕ) - l.start]).next a _).1 = _
  rw [run_to_end a hdirection le_rfl (hfirst.trans hlast), next_pingPong a hdirection,
    pingPongAdvance_start _ hfirst hlast.le]
  ring

theorem turned_reversed (a : AudioBuffer ℝ) (hdirection : l.pingPong = true)
    (hfirst : l.start ≤ p) (hlast : p < (l.stop - 1 : ℕ)) :
    (⟨p, true, false, some l⟩ : Streamer ℝ).Turned a l := by
  have hrun := run_to_end a hdirection hfirst hlast
  refine ⟨[2 * (l.stop - 1 : ℕ) - p], [], ?_, by rw [hrun], hrun.symm⟩
  intro step hstep
  rw [List.append_nil, List.mem_singleton] at hstep
  have hstart : (0 : ℝ) ≤ l.start := Nat.cast_nonneg _
  linarith

theorem turned_forward (a : AudioBuffer ℝ) (hdirection : l.pingPong = true)
    (hfirst : l.start < p) (hlast : p < (l.stop - 1 : ℕ)) :
    (⟨p, false, false, some l⟩ : Streamer ℝ).Turned a l := by
  refine ⟨[2 * (l.stop - 1 : ℕ) - l.start], [p - l.start], ?_, ?_,
    (run_to_both_ends a hdirection hfirst hlast).symm⟩
  · intro step hstep
    have hstart : (0 : ℝ) ≤ l.start := Nat.cast_nonneg _
    rcases List.mem_pair.mp hstep with rfl | rfl <;> linarith
  · rw [run_to_end a hdirection le_rfl (hfirst.trans hlast)]

/-- Once a ping-pong loop has turned round, what is heard at a position is the
same in both directions exactly if the position is not in the crossfade at the
start, or its reflection there sounds the same. -/
theorem direction_unheard_iff (a : AudioBuffer ℝ) {l : SampleLoop} {r : ResolvedLoop}
    (hresolve : l.resolve a.frames = .ok r) (hdirection : r.pingPong = true) {p : ℝ}
    (hlast : p ≤ (r.stop - 1 : ℕ)) :
    (∀ s t : Streamer ℝ, s.Turned a r → t.Turned a r → s.position = p → t.position = p →
      ∀ step step', (s.next a step).2 = (t.next a step').2) ↔
    (r.FadesAtStart p → LoopReading.readAt a (2 * r.start - p) = LoopReading.readAt a p) := by
  have hfits := SampleLoop.resolve_fits hresolve
  constructor
  · intro hsame hfade
    rcases hfade.entered.eq_or_lt with hstart | hstart
    · -- The start of the loop is its own reflection.
      rw [← hstart, two_mul, add_sub_cancel_right]
    · have hbefore : p < (r.stop - 1 : ℕ) := by
        have hend := hfade.before_end
        have hpos := hfade.crossfade_pos
        linarith
      have hback := turned_reversed a hdirection hstart.le hbefore
      have hon := turned_forward a hdirection hstart hbefore
      have hframes := hsame _ _ hback hon rfl rfl 0 0
      rw [hback.next_frame hfits hdirection, hon.next_frame hfits hdirection] at hframes
      exact (LoopReading.frame_reversed_eq_iff a hlast).mp hframes hfade
  · intro hreflection s t hs ht hsp htp step step'
    have hsame := (LoopReading.frame_reversed_eq_iff a hlast).mpr hreflection
    rw [hs.next_frame hfits hdirection, ht.next_frame hfits hdirection, hsp, htp]
    cases s.reversed <;> cases t.reversed
    · rfl
    · exact hsame.symm
    · exact hsame
    · rfl

/-- Four frames to and fro behind one that sounds like the second of them: there
the crossfade at the start changes nothing. -/
theorem direction_unheard_even :
    let a : AudioBuffer ℝ := AudioBuffer.ofSamples #[1, 0, 1, 0, 0] 1 48000
    ∀ s t : Streamer ℝ, s.Turned a ⟨1, 5, 2, true⟩ → t.Turned a ⟨1, 5, 2, true⟩ →
      s.position = 2 → t.position = 2 → ∀ step step', (s.next a step).2 = (t.next a step').2 := by
  intro a
  have hresolve : (⟨1, 5, 2, true⟩ : SampleLoop).resolve a.frames = .ok ⟨1, 5, 2, true⟩ := by
    decide
  refine (direction_unheard_iff a hresolve rfl (by norm_num)).mpr fun _ => ?_
  have hfront : 2 * ((1 : ℕ) : ℝ) - 2 = (0 : ℕ) := by norm_num
  have hhere : (2 : ℝ) = (2 : ℕ) := by norm_num
  rw [hfront, hhere, LoopReading.readAt_natCast, LoopReading.readAt_natCast]
  rfl

/-- With a click in front of the loop, the streamer hears it one frame behind the
start on the way back, and not on the way on. -/
theorem start_fades_one_way :
    let a : AudioBuffer ℝ := AudioBuffer.ofSamples #[1, 0, 0, 0, 0] 1 48000
    let r : ResolvedLoop := ⟨1, 5, 2, true⟩
    (⟨1, 5, 2, true⟩ : SampleLoop).resolve a.frames = .ok r ∧
      ∃ s t : Streamer ℝ, s.Turned a r ∧ t.Turned a r ∧ s.position = 2 ∧ t.position = 2 ∧
        ∀ step, (s.next a step).2.left = 1 / 4 ∧ (t.next a step).2.left = 0 := by
  intro a r
  have hresolve : (⟨1, 5, 2, true⟩ : SampleLoop).resolve a.frames = .ok r := by
    decide
  have hfits := SampleLoop.resolve_fits hresolve
  have hfirst : (r.start : ℝ) < 2 := by norm_num [r]
  have hlast : (2 : ℝ) < (r.stop - 1 : ℕ) := by norm_num [r]
  have hfade : r.FadesAtStart 2 := by
    constructor <;> norm_num [r]
  have hback := turned_reversed a rfl hfirst.le hlast
  have hon := turned_forward a rfl hfirst hlast
  refine ⟨hresolve, _, _, hback, hon, rfl, rfl, fun step => ?_⟩
  rw [hback.next_frame hfits rfl, hon.next_frame hfits rfl]
  obtain ⟨hforward, hreversed⟩ := LoopReading.frame_of_fadesAtStart a hfade
  have hfront : 2 * (r.start : ℝ) - 2 = (0 : ℕ) := by norm_num [r]
  have hhere : (2 : ℝ) = (2 : ℕ) := by norm_num
  have hclick : LoopReading.readAt a (2 * r.start - 2 : ℝ) = ⟨1, 1⟩ := by
    rw [hfront, LoopReading.readAt_natCast]
    rfl
  have hsilence : LoopReading.readAt a (2 : ℝ) = ⟨0, 0⟩ := by
    rw [hhere, LoopReading.readAt_natCast]
    rfl
  rw [hforward, hreversed, hclick, hsilence]
  refine ⟨?_, rfl⟩
  show (0 : ℝ) + (1 - 0) * (0.5 * (1 - (2 - (1 : ℕ)) / (2 : ℕ))) = 1 / 4
  norm_num

end Streamer

end Multisample
