import Multisample.Audio.Frame

/-!
# Delay lines

A ring of past samples that is read between samples.  Delay 1 is the sample
pushed last; two spare places leave room for reading one sample further back
than the longest delay.
-/

namespace Multisample

structure DelayLine (σ : Type) where
  buffer : Array σ
  write : Nat

namespace DelayLine

variable {σ : Type} [Scalar σ]

/-- Silence, with room for delays of up to `frames` samples, and of one at least. -/
@[specialize] def ofFrames (frames : Nat) : DelayLine σ :=
  ⟨Array.replicate (max frames 1 + 2) 0, 0⟩

/-- The longest delay that can be read. -/
def maxDelay (d : DelayLine σ) : Nat :=
  d.buffer.size - 2

@[specialize] def clear (d : DelayLine σ) : DelayLine σ :=
  ⟨Array.replicate d.buffer.size 0, 0⟩

@[specialize] def push (d : DelayLine σ) (x : σ) : DelayLine σ :=
  match d with
  | ⟨buffer, write⟩ => ⟨buffer.setIfInBounds write x, (write + 1) % buffer.size⟩

/-- The sample so many pushes back. -/
@[specialize] def back (d : DelayLine σ) (whole : Nat) : σ :=
  d.buffer.getD ((d.write + d.buffer.size - whole) % d.buffer.size) 0

/-- Reads at a delay, in a straight line between samples; the delay is kept inside the line. -/
@[specialize] def read (d : DelayLine σ) (delay : σ) : σ :=
  let delay := Scalar.clamp delay 1 (Scalar.ofNat d.maxDelay)
  let whole := Scalar.toNat delay
  let fraction := delay - Scalar.ofNat whole
  let newer := d.back whole
  let older := d.back (whole + 1)
  newer + (older - newer) * fraction

end DelayLine

end Multisample
