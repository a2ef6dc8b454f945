import Multisample.Audio.Buffer
import Multisample.Playback.Loop

/-!
# Streaming a buffer

A streamer reads a buffer at a position between frames and moves on by a step.
Without a loop it ends with the buffer; a forward loop wraps from its end to
its start; a ping-pong loop turns round at both ends.  A crossfade blends the
last frames of a loop into what comes before it, or into the reflection at a
turning point.
-/

namespace Multisample

structure Streamer (π : Type) where
  position : π
  reversed : Bool
  finished : Bool
  sampleLoop : Option ResolvedLoop

/-- Two frames of a buffer and the share of the second. -/
structure Lookup (σ : Type) where
  index : Nat
  next : Nat
  amount : σ

/-- What a loop sounds like at a position: two frames, and at a crossfade a
second position blended into them with its share. -/
structure LoopReading (σ π : Type) where
  plain : Lookup σ
  blended : Option (π × σ)

variable {σ π : Type} [Scalar σ] [Scalar π] [Precision σ π]

namespace Lookup

/-- The frames on both sides of a position. -/
@[specialize] def ofPosition (position : π) : Lookup σ :=
  let index := Scalar.toNat position
  ⟨index, index + 1, Precision.narrow (Scalar.fract position)⟩

@[specialize] def frame (a : AudioBuffer σ) (w : Lookup σ) : Frame σ :=
  (a.stereo w.index).blend (a.stereo w.next) w.amount

end Lookup

namespace LoopReading

/-- The buffer at a position; in front of it, the first frame. -/
@[specialize] def readAt (a : AudioBuffer σ) (position : π) : Frame σ :=
  (Lookup.ofPosition (Scalar.max position 0)).frame a

@[specialize] def frame (a : AudioBuffer σ) (r : LoopReading σ π) : Frame σ :=
  match r.blended with
  | none => r.plain.frame a
  | some (position, amount) => (r.plain.frame a).blend (readAt a position) amount

/-- A forward loop; across its end it reads on at its start. -/
@[specialize] def forward (l : ResolvedLoop) (position : π) : LoopReading σ π :=
  let index := Scalar.toNat position
  let fadeStart : π := Scalar.ofNat (l.stop - l.crossfade)
  { plain :=
      { index
        next := if index + 1 = l.stop then l.start else index + 1
        amount := Precision.narrow (Scalar.fract position) }
    blended :=
      if 0 < l.crossfade ∧ Scalar.le fadeStart position ∧
          Scalar.lt position (Scalar.ofNat l.stop) then
        some (position - Scalar.ofNat (l.stop - l.start),
          Precision.narrow ((position - fadeStart) / Scalar.ofNat l.crossfade))
      else none }

/-- A ping-pong loop in a buffer of so many frames; near a turning point half reflected. -/
@[specialize] def pingPong (frames : Nat) (l : ResolvedLoop) (position : π) (reversed : Bool) :
    LoopReading σ π :=
  let first : π := Scalar.ofNat l.start
  let last : π := Scalar.ofNat (l.stop - 1)
  let fade : π := Scalar.ofNat l.crossfade
  let index := Scalar.toNat position
  let share (distance : π) : σ := 0.5 * Precision.narrow (1 - distance / fade)
  { plain :=
      { index
        next := max (min (index + 1) (l.stop - 1)) index
        amount := Precision.narrow (Scalar.fract position) }
    blended :=
      if l.crossfade = 0 then none
      else if Scalar.lt (last - fade) position && Scalar.le position last then
        let distance := last - position
        let mirrored := last + distance
        if Scalar.le mirrored (Scalar.ofNat frames - 1) then some (mirrored, share distance)
        else none
      else if Scalar.lt position (first + fade) && Scalar.le first position && reversed then
        let distance := position - first
        let mirrored := first - distance
        if Scalar.le 0 mirrored then some (mirrored, share distance) else none
      else none }

end LoopReading

namespace Streamer

/-- At the first frame; the loop, if any, is entered when playback reaches it. -/
@[specialize] def start (sampleLoop : Option ResolvedLoop) : Streamer π :=
  ⟨0, false, false, sampleLoop⟩

/-- One frame without a loop: silence once the position has left the buffer. -/
@[specialize] def stepOnce (a : AudioBuffer σ) (step : π) (s : Streamer π) : Streamer π × Frame σ :=
  let length : π := Scalar.ofNat a.frames
  if Scalar.le length s.position then ({ s with finished := true }, Frame.silence)
  else
    let position := s.position + step
    ({ s with position, finished := Scalar.le length position }, LoopReading.readAt a s.position)

/-- What a streamer with a loop reads where it stands. -/
@[specialize] def reading (frames : Nat) (l : ResolvedLoop) (s : Streamer π) : LoopReading σ π :=
  if l.pingPong then LoopReading.pingPong frames l s.position s.reversed
  else LoopReading.forward l s.position

/-- Where a forward loop goes on after a step. -/
@[specialize] def forwardAdvance (l : ResolvedLoop) (position : π) : π :=
  if Scalar.le (Scalar.ofNat l.stop) position then
    let start : π := Scalar.ofNat l.start
    start + Scalar.rem (position - start) (Scalar.ofNat (l.stop - l.start))
  else position

/-- Where a ping-pong loop goes on after a step, and in which direction. -/
@[specialize] def pingPongAdvance (l : ResolvedLoop) (position step : π) (reversed : Bool) :
    π × Bool :=
  let first : π := Scalar.ofNat l.start
  let last : π := Scalar.ofNat (l.stop - 1)
  let (position, reversed) :=
    if reversed then
      let position := position - step
      if Scalar.lt position first then (first + (first - position), false) else (position, true)
    else
      let position := position + step
      if Scalar.lt last position then (last - (position - last), true) else (position, false)
  if Scalar.le first position || reversed then (Scalar.clamp position first last, reversed)
  else (position, reversed)

/-- Reads one frame and moves on by `step` frames of the buffer. -/
@[specialize] def next (a : AudioBuffer σ) (step : π) (s : Streamer π) : Streamer π × Frame σ :=
  if s.finished then (s, Frame.silence)
  else
    match s.sampleLoop with
    | none => stepOnce a step s
    | some l =>
      if l.pingPong then
        let (position, reversed) := pingPongAdvance l s.position step s.reversed
        ({ s with position, reversed }, (s.reading a.frames l).frame a)
      else
        ({ s with position := forwardAdvance l (s.position + step) },
          (s.reading a.frames l).frame a)

end Streamer

end Multisample
