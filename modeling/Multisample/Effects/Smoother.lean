import Multisample.Numeric.Scalar

/-!
# Smoothing

A value glides toward its target by a fixed share of the distance per sample.
A whole block is taken in one step, by a power of that share, and a value close
enough to its target arrives.
-/

namespace Multisample

structure Smoother (σ : Type) where
  current : σ
  target : σ
  /-- The share of the distance that is left after one sample. -/
  pole : σ
deriving Repr

namespace Smoother

variable {σ : Type}

def setTarget (s : Smoother σ) (target : σ) : Smoother σ :=
  { s with target }

/-- Arrives at once. -/
def jump (s : Smoother σ) (value : σ) : Smoother σ :=
  { s with current := value, target := value }

/-- The distance left after one sample. -/
@[specialize] def tick [Scalar σ] (s : Smoother σ) : Smoother σ :=
  { s with current := s.target + (s.current - s.target) * s.pole }

/-- A value this close to its target arrives. -/
@[specialize] def settle [Scalar σ] (s : Smoother σ) : Smoother σ :=
  if Scalar.lt (Scalar.abs (s.current - s.target)) 0.000001 then { s with current := s.target }
  else s

/-- A number of samples as an exponent, which is a signed word of 32 bits. -/
def exponent (frames : Nat) : Int :=
  (frames : Int).bmod UInt32.size

/-- Moves on by a number of samples at once. -/
@[specialize] def advance [Scalar σ] (s : Smoother σ) (frames : Nat) : Smoother σ :=
  let current := s.target + (s.current - s.target) * Scalar.zpow s.pole (exponent frames)
  { s with current }.settle

/-- The pole of a low-pass at five hertz. -/
@[specialize] def poleFor [Elementary σ] (sampleRate : σ) : σ :=
  Elementary.exp (-2 * Elementary.pi * 5 / Scalar.max sampleRate 1)

@[specialize] def ofValue [Elementary σ] (value sampleRate : σ) : Smoother σ :=
  ⟨value, value, poleFor sampleRate⟩

@[specialize] def setRate [Elementary σ] (s : Smoother σ) (sampleRate : σ) : Smoother σ :=
  { s with pole := poleFor sampleRate }

end Smoother

end Multisample
