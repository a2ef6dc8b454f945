import Multisample.Effects.DelayLine
import Multisample.Effects.Parameter

/-!
# Delay

Echoes after a time given in milliseconds or in note lengths, on both sides
alike or from side to side.
-/

namespace Multisample

structure Delay (σ : Type) where
  sampleRate : σ
  left : DelayLine σ
  right : DelayLine σ

namespace Delay

variable {σ π : Type}

@[specialize] def params [Scalar σ] : List (ParamInfo σ) := [
  ⟨"Mode", "", 0, 1, 0, true⟩,
  ⟨"Time", "ms", 1, 2000, 375, false⟩,
  ⟨"Sync", "", 0, 13, 0, true⟩,
  ⟨"Feedback", "", 0, 0.95, 0.4, false⟩,
  ⟨"Mix", "", 0, 1, 0.3, false⟩]

/-- Note lengths in beats, from a thirty-second to a whole note, with triplets and dots. -/
@[specialize] def divisions [Scalar π] : List π :=
  [0.125, 1 / 6, 0.25, 1 / 3, 0.375, 0.5, 2 / 3, 0.75, 1, 4 / 3, 1.5, 2, 4]

/-- The longest delay: a whole note at 60 beats per minute. -/
@[specialize] def longest [Scalar σ] : σ := 4

/-- The delay time in seconds; a synced delay needs a tempo and never exceeds the longest. -/
@[specialize] def seconds [Scalar σ] [Scalar π] [Precision σ π] (timeMs sync : σ) (tempo : π) : σ :=
  let division := Scalar.toNat (Scalar.round sync)
  if division = 0 || Scalar.le tempo 0 then timeMs * 0.001
  else
    let beats : π := divisions.getD (min (division - 1) 12) 4
    Scalar.min (Precision.narrow (beats * 60 / tempo)) longest

variable [Scalar σ]

@[specialize] def lineFrames (sampleRate : σ) : Nat :=
  Scalar.toNat (longest * sampleRate) + 1

@[specialize] def ofRate (sampleRate : σ) : Delay σ :=
  let line := DelayLine.ofFrames (lineFrames sampleRate)
  ⟨sampleRate, line, line⟩

@[specialize] def reset (d : Delay σ) : Delay σ :=
  { d with left := d.left.clear, right := d.right.clear }

/-- The settings of a block. -/
structure Settings (σ : Type) where
  pingPong : Bool
  /-- In frames. -/
  delay : σ
  feedback : σ
  mix : σ

@[specialize] def settings [Scalar π] [Precision σ π] (d : Delay σ) (p : ParamValues σ)
    (ctx : BlockContext π) : Settings σ :=
  ⟨Scalar.eq (Scalar.round (p.at 0)) 1, seconds (p.at 1) (p.at 2) ctx.tempo * d.sampleRate,
    p.at 3, p.at 4⟩

@[specialize] def step (s : Settings σ) (d : Delay σ) (x : Frame σ) : Delay σ × Frame σ :=
  match d with
  | ⟨sampleRate, left, right⟩ =>
    let wetLeft := left.read s.delay
    let wetRight := right.read s.delay
    let out := x.mix ⟨wetLeft, wetRight⟩ s.mix
    if s.pingPong then
      (⟨sampleRate, left.push ((x.left + x.right) * 0.5 + wetRight * s.feedback),
        right.push (wetLeft * s.feedback)⟩, out)
    else
      (⟨sampleRate, left.push (x.left + wetLeft * s.feedback),
        right.push (x.right + wetRight * s.feedback)⟩, out)

end Delay

end Multisample
