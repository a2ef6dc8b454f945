import Multisample.Audio.Frame
import Multisample.Numeric.Duration

/-!
# Audio buffers

Decoded audio is a row of interleaved samples that never changes.  A buffer
holds whole frames only, and at least one channel.
-/

namespace Multisample

structure AudioBuffer (σ : Type) where
  samples : Array σ
  channels : Nat
  rate : Nat
  frames : Nat
  channels_pos : 0 < channels
  size_eq : samples.size = frames * channels

namespace AudioBuffer

variable {σ π : Type}

/-- Wraps interleaved samples; a trailing partial frame is dropped, no channels count as one. -/
def ofSamples (samples : Array σ) (channels rate : Nat) : AudioBuffer σ where
  samples := samples.extract 0 (samples.size / max channels 1 * max channels 1)
  channels := max channels 1
  rate := rate
  frames := samples.size / max channels 1
  channels_pos := by omega
  size_eq := by
    rw [Array.size_extract, Nat.sub_zero]
    exact Nat.min_eq_left (Nat.div_mul_le_self _ _)

instance : Inhabited (AudioBuffer σ) :=
  ⟨ofSamples #[] 1 44100⟩

/-- Four bytes for every sample. -/
def memory (a : AudioBuffer σ) : Nat :=
  a.samples.size * 4

/-- The playing time at the buffer's own rate. -/
def duration (a : AudioBuffer σ) : Duration :=
  (Duration.ofSeconds? (a.frames.toFloat / (max a.rate 1).toFloat)).getD ⟨0⟩

variable [Scalar σ] [Scalar π] [Precision σ π]

/-- The sample of a channel at a frame, silence past the end. -/
@[specialize] def sample (a : AudioBuffer σ) (frame channel : Nat) : σ :=
  a.samples.getD (frame * a.channels + channel) 0

/-- A frame as stereo: one channel feeds both sides, channels past the second are left out. -/
@[specialize] def stereo (a : AudioBuffer σ) (frame : Nat) : Frame σ :=
  if frame < a.frames then
    let left := a.sample frame 0
    if a.channels = 1 then ⟨left, left⟩ else ⟨left, a.sample frame 1⟩
  else Frame.silence

/-- The frames of a buffer, as stereo. -/
@[specialize] def stereoFrames (a : AudioBuffer σ) : List (Frame σ) :=
  (List.range a.frames).map a.stereo

/-- A channel between the frame below a position and the next, which repeats the last. -/
@[specialize] def interpolate (a : AudioBuffer σ) (position : π) (channel : Nat) : σ :=
  let frame := Scalar.toNat (Scalar.floor position)
  let fraction : σ := Precision.narrow (Scalar.fract position)
  let here := a.samples.getD (frame * a.channels + channel) 0
  let next := a.samples.getD ((frame + 1) * a.channels + channel) here
  here + (next - here) * fraction

/-- How many frames the buffer has at another rate, rounded up. -/
@[specialize] def resampledFrames (π : Type) [Scalar π] (a : AudioBuffer σ) (target : Nat) : Nat :=
  let ratio : π := Scalar.ofNat target / Scalar.ofNat a.rate
  Scalar.toNat (Scalar.ceil (Scalar.ofNat a.frames * ratio))

/-- The same audio at another rate, by linear interpolation. -/
@[specialize] def resample (π : Type) [Scalar π] [Precision σ π] (a : AudioBuffer σ)
    (target : Nat) : AudioBuffer σ :=
  if target = a.rate ∨ a.frames = 0 then ofSamples a.samples a.channels target
  else
    let ratio : π := Scalar.ofNat target / Scalar.ofNat a.rate
    let samples := (List.range (resampledFrames π a target)).foldl
      (fun out k =>
        let position : π := Scalar.ofNat k / ratio
        (List.range a.channels).foldl (fun out c => out.push (a.interpolate position c)) out)
      #[]
    ofSamples samples a.channels target

end AudioBuffer

end Multisample
