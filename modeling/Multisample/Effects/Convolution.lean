import Multisample.Audio.Buffer
import Multisample.Effects.Parameter
import Multisample.Effects.Transform

/-!
# Convolution

An impulse response is cut into partitions of one block each and applied in the
domain of spectra.  Input is gathered into whole partitions, so the wet signal
lags by one of them.  Without an impulse response the effect lets everything
through.
-/

namespace Multisample

/-- One channel of a convolver. -/
structure ConvolverChannel (σ γ : Type) where
  /-- The spectra of the partitions of the impulse response. -/
  response : List γ
  /-- A ring of the spectra of past input windows. -/
  history : Array γ
  /-- The partition of input before the one being gathered. -/
  previous : Array σ
  staged : Array σ
  ready : Array σ

structure Convolver (σ γ : Type) where
  id : Nat
  /-- The sample rate it was built for. -/
  rate : Nat
  left : ConvolverChannel σ γ
  right : ConvolverChannel σ γ
  head : Nat
  fill : Nat

namespace Convolver

variable {σ γ : Type}

/-- Frames per partition. -/
def partition : Nat := maxBlock

/-- The number of partitions of the impulse response. -/
def partitions (c : Convolver σ γ) : Nat :=
  c.left.response.length

/-- Pieces of `size` elements, the last one filled up. -/
def chunks {α : Type} (size : Nat) (fill : α) : Nat → List α → List (List α)
  | 0, _ => []
  | count + 1, xs =>
    let piece := xs.take size
    (piece ++ List.replicate (size - piece.length) fill) :: chunks size fill count (xs.drop size)

section build

variable [Elementary σ]

/-- How many frames of an impulse response are used: ten seconds of it, and one frame at least. -/
@[specialize] def usedFrames (σ : Type) [Scalar σ] (frames rate : Nat) : Nat :=
  let longest := Scalar.toNat ((10 : σ) * Scalar.ofNat rate)
  max 1 (min frames (max longest 1))

/-- The sum of squares. -/
@[specialize] def energy (xs : List σ) : σ :=
  Scalar.sum (xs.map fun x => x * x)

/-- The factor that brings the louder channel to unit energy; silence stays silent. -/
@[specialize] def normalizer (left right : List σ) : σ :=
  let e := Scalar.max (Scalar.max 0 (energy left)) (energy right)
  if Scalar.lt 0 e then 1 / Elementary.sqrt e else 0

/-- The taps of both channels: resampled, cut and normalized. -/
@[specialize] def taps (π : Type) [Scalar π] [Precision σ π] (a : AudioBuffer σ) (rate : Nat) :
    List (Frame σ) :=
  let a := if a.rate = rate then a else a.resample π rate
  let frames := (List.range (usedFrames σ a.frames rate)).map a.stereo
  let gain := normalizer (frames.map (·.left)) (frames.map (·.right))
  frames.map fun x => x.scale gain

variable [Transform σ γ]

/-- A silent channel for a row of taps. -/
@[specialize] def channel (taps : List σ) : ConvolverChannel σ γ :=
  let count := (taps.length + partition - 1) / partition
  let padded (piece : List σ) : List σ := piece ++ List.replicate partition 0
  ⟨(chunks partition 0 count taps).map fun piece => Transform.forward (padded piece),
    Array.replicate count (Transform.zero σ), Array.replicate partition 0, Array.replicate partition 0,
    Array.replicate partition 0⟩

/-- Prepares an impulse response for a sample rate. -/
@[specialize] def build (π : Type) [Scalar π] [Precision σ π] (id : Nat) (a : AudioBuffer σ)
    (rate : Nat) : Convolver σ γ :=
  let taps := taps π a rate
  ⟨id, rate, channel (taps.map (·.left)), channel (taps.map (·.right)), 0, 0⟩

end build

section run

variable [Scalar σ] [Transform σ γ]

@[specialize] def resetChannel (c : ConvolverChannel σ γ) : ConvolverChannel σ γ :=
  ⟨c.response, Array.replicate c.history.size (Transform.zero σ), Array.replicate partition 0,
    Array.replicate partition 0, Array.replicate partition 0⟩

@[specialize] def reset (c : Convolver σ γ) : Convolver σ γ :=
  { c with left := resetChannel c.left, right := resetChannel c.right, head := 0, fill := 0 }

/-- The sum of products of the response's spectra with the windows before, newest first. -/
@[specialize] def accumulate (σ : Type) [Transform σ γ] (history : Array γ) (head : Nat)
    (response : List γ) : γ :=
  response.zipIdx.foldl
    (fun sum (h, k) =>
      let slot := (head + history.size - k) % history.size
      Transform.add σ sum (Transform.mul σ (history.getD slot (Transform.zero σ)) h))
    (Transform.zero σ)

/-- Convolves the partition that has been gathered; what comes out is heard during the next. -/
@[specialize] def turnOver (head : Nat) (c : ConvolverChannel σ γ) : ConvolverChannel σ γ :=
  let window := c.previous.toList ++ c.staged.toList
  let history := c.history.setIfInBounds head (Transform.forward window)
  let out : List σ := Transform.inverse (accumulate σ history head c.response)
  let scale : σ := 1 / Scalar.ofNat (2 * partition)
  ⟨c.response, history, c.staged, c.staged, ((out.drop partition).map (· * scale)).toArray⟩

/-- Feeds one frame and gives the wet frame of one partition ago. -/
@[specialize] def step (c : Convolver σ γ) (x : Frame σ) : Convolver σ γ × Frame σ :=
  match c with
  | ⟨id, rate, ⟨hl, sl, pl, gl, rl⟩, ⟨hr, sr, pr, gr, rr⟩, head, fill⟩ =>
    let out := ⟨rl.getD fill 0, rr.getD fill 0⟩
    let left := ⟨hl, sl, pl, gl.setIfInBounds fill x.left, rl⟩
    let right := ⟨hr, sr, pr, gr.setIfInBounds fill x.right, rr⟩
    if fill + 1 = partition then
      (⟨id, rate, turnOver head left, turnOver head right, (head + 1) % hl.length, 0⟩, out)
    else (⟨id, rate, left, right, head, fill + 1⟩, out)

end run

end Convolver

namespace ConvolutionReverb

@[specialize] def params {σ : Type} [Scalar σ] : List (ParamInfo σ) := [
  ⟨"Mix", "", 0, 1, 0.3, false⟩]

end ConvolutionReverb

end Multisample
