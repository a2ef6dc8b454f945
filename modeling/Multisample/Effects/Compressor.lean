import Multisample.Effects.Parameter
import Multisample.Numeric.Level

/-!
# Compressor

A follower of the louder channel drives a gain curve: straight up to the
threshold, straight with a lower slope above it, and a parabola across the knee.
-/

namespace Multisample

structure Compressor (σ : Type) where
  sampleRate : σ
  /-- The followed peak level, linear. -/
  envelope : σ
deriving Repr

namespace Compressor

variable {σ : Type}

@[specialize] def params [Scalar σ] : List (ParamInfo σ) := [
  ⟨"Threshold", "dB", -60, 0, -18, false⟩,
  ⟨"Ratio", "", 1, 20, 4, false⟩,
  ⟨"Attack", "ms", 0.1, 100, 5, false⟩,
  ⟨"Release", "ms", 10, 1000, 150, false⟩,
  ⟨"Knee", "dB", 0, 24, 6, false⟩,
  ⟨"Makeup", "dB", 0, 24, 0, false⟩]

/-- The change of gain in decibels for a level in decibels; never an increase. -/
@[specialize] def gainReduction [Scalar σ] (level threshold ratio knee : σ) : σ :=
  let slope := 1 - 1 / ratio
  if Scalar.le knee 0 then
    if Scalar.le level threshold then 0 else (threshold - level) * slope
  else
    let half := knee / 2
    if Scalar.le level (threshold - half) then 0
    else if Scalar.le (threshold + half) level then (threshold - level) * slope
    else
      let x := level - threshold + half
      (-slope) * x * x / (2 * knee)

variable [Elementary σ]

@[specialize] def ofRate (sampleRate : σ) : Compressor σ :=
  ⟨sampleRate, 0⟩

@[specialize] def reset (c : Compressor σ) : Compressor σ :=
  { c with envelope := 0 }

/-- The share of the old level that a follower with this time keeps per frame. -/
@[specialize] def keep (sampleRate ms : σ) : σ :=
  Elementary.exp (-1 / (ms * 0.001 * sampleRate))

/-- The settings of a block. -/
structure Settings (σ : Type) where
  threshold : σ
  ratio : σ
  knee : σ
  makeup : σ
  attack : σ
  release : σ

@[specialize] def settings (c : Compressor σ) (p : ParamValues σ) : Settings σ :=
  ⟨p.at 0, Scalar.max (p.at 1) 1, p.at 4, p.at 5, keep c.sampleRate (p.at 2),
    keep c.sampleRate (p.at 3)⟩

/-- A level in decibels, with a floor. -/
@[specialize] def decibels (level : σ) : σ :=
  if Scalar.lt 0.000001 level then 20 * Elementary.log10 level else -120

@[specialize] def step (s : Settings σ) (c : Compressor σ) (x : Frame σ) : Compressor σ × Frame σ :=
  let level := Scalar.max (Scalar.abs x.left) (Scalar.abs x.right)
  let keep := if Scalar.lt c.envelope level then s.attack else s.release
  let envelope := keep * c.envelope + (1 - keep) * level
  let gain := gainOfDecibels
    (gainReduction (decibels envelope) s.threshold s.ratio s.knee + s.makeup)
  ({ c with envelope }, x.scale gain)

end Compressor

end Multisample
