import Multisample.Numeric.Scalar

/-!
# Slow oscillators

A sine that sweeps other things; its phase is counted in turns.
-/

namespace Multisample

structure Oscillator (σ : Type) where
  phase : σ
  initial : σ
deriving Repr

namespace Oscillator

variable {σ : Type}

def ofPhase (phase : σ) : Oscillator σ :=
  ⟨phase, phase⟩

def reset (o : Oscillator σ) : Oscillator σ :=
  { o with phase := o.initial }

variable [Elementary σ]

/-- The value of this frame, in [-1, 1]. -/
@[specialize] def value (o : Oscillator σ) : σ :=
  Elementary.sin (2 * Elementary.pi * o.phase)

/-- The value of this frame on the scale from 0 to 1. -/
@[specialize] def unipolar (o : Oscillator σ) : σ :=
  0.5 + 0.5 * o.value

/-- Moves on by one frame at `rate` turns a second. -/
@[specialize] def advance (o : Oscillator σ) (rate sampleRate : σ) : Oscillator σ :=
  { o with phase := Scalar.fract (o.phase + rate / sampleRate) }

end Oscillator

end Multisample
