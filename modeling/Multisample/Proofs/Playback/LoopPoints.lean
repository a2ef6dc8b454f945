import Mathlib.Order.Bounds.Basic
import Multisample.Proofs.Playback.Looping
import Multisample.Proofs.Script.Regions

/-!
# Loop points before and after their file is read

The binder sees loop points without the length of their file; resolution sees
them with it.  The first refuses only what the second would refuse at every
length.  What it lets pass resolves at some length, unless the start counts from
the end and the stop does not: a start behind the last frame, or a stop in front
of the first, passes although no length has a loop for it.
-/

namespace Multisample

/-- Room for a crossfade: a forward loop also reads as much in front of its
start, a ping-pong loop fades at both ends. -/
def ResolvedLoop.HasRoomFor (l : ResolvedLoop) (crossfade : ℕ) : Prop :=
  if l.pingPong then 2 * crossfade ≤ l.stop - l.start
  else crossfade ≤ l.stop - l.start ∧ crossfade ≤ l.start

namespace SampleLoop

/-- The frame that an index stands for in a buffer of so many; a negative index
counts from the place behind the last one. -/
def StandsFor (frames : ℕ) (index : ℤ) (frame : ℕ) : Prop :=
  0 ≤ index ∧ (frame : ℤ) = index ∨ index < 0 ∧ (frame : ℤ) = frames + 1 + index

theorem frameIndex_eq_iff {frames frame : ℕ} {index : ℤ} :
    frameIndex index frames = frame ↔ StandsFor frames index frame := by
  unfold frameIndex StandsFor
  split <;> omega

theorem le_crossfadeLimit_iff {r : ResolvedLoop} {crossfade : ℕ} :
    crossfade ≤ crossfadeLimit r.start r.stop r.pingPong ↔ r.HasRoomFor crossfade := by
  unfold crossfadeLimit ResolvedLoop.HasRoomFor
  split
  · omega
  · exact le_min_iff

/-- Resolution keeps as much of a crossfade as the loop has room for. -/
theorem isGreatest_crossfade_iff {wanted : ℕ} {r : ResolvedLoop} :
    IsGreatest {c | c ≤ wanted ∧ r.HasRoomFor c} r.crossfade ↔
      r.crossfade = min wanted (crossfadeLimit r.start r.stop r.pingPong) := by
  have hset : {c | c ≤ wanted ∧ r.HasRoomFor c} =
      Set.Iic (min wanted (crossfadeLimit r.start r.stop r.pingPong)) := by
    ext c
    rw [Set.mem_ofPred_eq, Set.mem_Iic, le_min_iff, le_crossfadeLimit_iff]
  rw [hset, isGreatest_Iic.isGreatest_iff_eq]
  exact eq_comm

variable {l : SampleLoop} {frames : ℕ}

theorem exists_resolve_iff : (∃ r, l.resolve frames = .ok r) ↔
    0 ≤ frameIndex l.start frames ∧ frameIndex l.start frames < frameIndex l.stop frames ∧
      frameIndex l.stop frames ≤ frames := by
  constructor
  · rintro ⟨r, h⟩
    obtain ⟨hstart, hstop, hlt, hle, -⟩ := resolve_eq_ok_iff.mp h
    rw [hstart, hstop]
    omega
  · rintro ⟨hstart, hlt, hle⟩
    obtain ⟨stop, hstop⟩ := Int.eq_ofNat_of_zero_le (hstart.trans hlt.le)
    obtain ⟨start, hstart⟩ := Int.eq_ofNat_of_zero_le hstart
    have hinside : start < stop ∧ stop ≤ frames := by omega
    exact ⟨⟨start, stop, min l.crossfade (crossfadeLimit start stop l.pingPong), l.pingPong⟩,
      resolve_eq_ok_iff.mpr ⟨hstart, hstop, hinside.1, hinside.2, rfl, rfl⟩⟩

/-- The loop points that some length has room for. -/
theorem resolves_iff : (∃ frames r, l.resolve frames = .ok r) ↔
    ((0 ≤ l.start ↔ 0 ≤ l.stop) → l.start < l.stop) ∧
      (l.start < 0 → 0 ≤ l.stop → l.start < -1 ∧ 0 < l.stop) := by
  simp only [exists_resolve_iff, frameIndex]
  constructor
  · rintro ⟨frames, hstart, hlt, hle⟩
    split at hstart <;> split at hle <;> omega
  · rintro ⟨hsame, hcrossed⟩
    by_cases hback : l.start < 0 ∧ 0 ≤ l.stop
    · -- A start counted from the end in front of a stop that is not: the file must not be
      -- so long that the start passes the stop.
      obtain ⟨hbefore, hbehind⟩ := hcrossed hback.1 hback.2
      refine ⟨l.start.natAbs + l.stop.natAbs - 2, ?_⟩
      rw [if_neg (by omega), if_pos (by omega)]
      omega
    · refine ⟨l.start.natAbs + l.stop.natAbs, ?_⟩
      split <;> split <;> omega

/-- Resolution succeeds where the indices stand for frames in order. -/
theorem exists_resolve_iff_standsFor : (∃ r, l.resolve frames = .ok r) ↔
    ∃ start stop, StandsFor frames l.start start ∧ StandsFor frames l.stop stop ∧
      start < stop ∧ stop ≤ frames := by
  constructor
  · rintro ⟨r, h⟩
    obtain ⟨hstart, hstop, hlt, hle, -⟩ := resolve_eq_ok_iff.mp h
    exact ⟨r.start, r.stop, frameIndex_eq_iff.mp hstart, frameIndex_eq_iff.mp hstop, hlt, hle⟩
  · rintro ⟨start, stop, hstart, hstop, hlt, hle⟩
    rw [← frameIndex_eq_iff] at hstart hstop
    exact exists_resolve_iff.mpr (by omega)

/-- The binder lets a loop pass whose ends count from different sides. -/
theorem check_eq_none_iff {limit : ℕ} {values : Script.Values} (hloop : values.toSampleLoop = l)
    (hstart : (values.integer? "start_frame").isSome)
    (hstop : (values.integer? "end_frame").isSome) :
    Script.Schema.sampleLoop.rule.check limit values = none ↔
      ((0 ≤ l.start ↔ 0 ≤ l.stop) → l.start < l.stop) := by
  obtain ⟨start, hstart⟩ := Option.isSome_iff_exists.mp hstart
  obtain ⟨stop, hstop⟩ := Option.isSome_iff_exists.mp hstop
  have hpoints : l.start = start ∧ l.stop = stop := by
    rw [← hloop, Script.Values.toSampleLoop, hstart, hstop]
    exact ⟨rfl, rfl⟩
  rw [hpoints.1, hpoints.2]
  exact Script.Binding.loopOrder_eq_none hstart hstop

/-- A loop that the binder refuses resolves at no length; one that it accepts
resolves at some, if its ends count from the same side or only its stop counts
from the end.  At each length resolution succeeds exactly if the indices stand
for frames in order, and then gives these with as much of the crossfade as there
is room for. -/
theorem check_agrees_with_resolve (l : SampleLoop) :
    (∀ limit (values : Script.Values), values.toSampleLoop = l →
      (values.integer? "start_frame").isSome → (values.integer? "end_frame").isSome →
        (∀ issue, Script.Schema.sampleLoop.rule.check limit values = some issue →
          ∀ frames, ∃ e, l.resolve frames = .error e) ∧
        (Script.Schema.sampleLoop.rule.check limit values = none →
          (0 ≤ l.start ↔ 0 ≤ l.stop) ∨ 0 ≤ l.start ∧ l.stop < 0 →
            ∃ frames r, l.resolve frames = .ok r)) ∧
    ∀ frames,
      ((∃ r, l.resolve frames = .ok r) ↔ ∃ start stop, StandsFor frames l.start start ∧
        StandsFor frames l.stop stop ∧ start < stop ∧ stop ≤ frames) ∧
      ∀ r, l.resolve frames = .ok r ↔
        StandsFor frames l.start r.start ∧ StandsFor frames l.stop r.stop ∧
          r.start < r.stop ∧ r.stop ≤ frames ∧ r.pingPong = l.pingPong ∧
          IsGreatest {c | c ≤ l.crossfade ∧ r.HasRoomFor c} r.crossfade := by
  constructor
  · intro limit values hloop hstart hstop
    have hcheck := @check_eq_none_iff l limit values hloop hstart hstop
    constructor
    · intro issue hissue frames
      cases hresolve : l.resolve frames with
      | error e => exact ⟨e, rfl⟩
      | ok r =>
          have hnone := hcheck.mpr (resolves_iff.mp ⟨frames, r, hresolve⟩).1
          rw [hnone] at hissue
          cases hissue
    · intro hnone hsides
      refine resolves_iff.mpr ⟨hcheck.mp hnone, ?_⟩
      omega
  · intro frames
    refine ⟨exists_resolve_iff_standsFor, fun r => ?_⟩
    rw [resolve_eq_ok_iff, frameIndex_eq_iff, frameIndex_eq_iff, isGreatest_crossfade_iff]

/-- A loop up to the end of its file, with a crossfade that the loop start cuts
down to 24 frames, and one that is refused because it is empty. -/
theorem check_agrees_with_resolve_tail :
    let tail : SampleLoop := { start := 24, stop := -1, crossfade := 100 }
    let written : Script.Values := [("start_frame", .integer 24), ("end_frame", .integer (-1)),
      ("crossfade_frames", .integer 100)]
    let crossed : Script.Values := [("start_frame", .integer 100), ("end_frame", .integer 50)]
    (∃ frames r, tail.resolve frames = .ok r) ∧
      tail.resolve 1000 = .ok ⟨24, 1000, 24, false⟩ ∧
      written.toSampleLoop = tail ∧ crossed.toSampleLoop = { start := 100, stop := 50 } ∧
      ∀ frames, ∃ e, ({ start := 100, stop := 50 } : SampleLoop).resolve frames = .error e := by
  intro tail written crossed
  have htail : written.toSampleLoop = tail := by decide
  have hcrossed : crossed.toSampleLoop = { start := 100, stop := 50 } := by decide
  obtain ⟨haccepted, hresolves⟩ := check_agrees_with_resolve tail
  obtain ⟨hrefused, -⟩ := check_agrees_with_resolve { start := 100, stop := 50 }
  refine ⟨?_, ?_, htail, hcrossed, ?_⟩
  · exact (haccepted 64 written htail rfl rfl).2 (by decide) (by decide)
  · refine ((hresolves 1000).2 _).mpr ⟨by simp [StandsFor, tail], by simp [StandsFor, tail],
      by decide, by decide, rfl, ?_⟩
    refine ⟨⟨by decide, by simp [ResolvedLoop.HasRoomFor]⟩, ?_⟩
    rintro c ⟨-, hroom⟩
    exact hroom.2
  · exact (hrefused 64 crossed hcrossed rfl rfl).1 _ rfl

end SampleLoop

end Multisample
