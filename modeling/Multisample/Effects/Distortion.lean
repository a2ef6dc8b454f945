import Multisample.Effects.Parameter
import Multisample.Numeric.Level

/-!
# Distortion

Three ways to keep a driven signal within bounds.  The level is pulled back so
that more drive means more colour, not more volume.
-/

namespace Multisample

inductive Shape where
  /-- Smooth saturation. -/
  | tube
  | hardClip
  /-- Reflects the signal back inside [-1, 1]. -/
  | foldback
deriving DecidableEq, Repr

namespace Shape

variable {σ : Type} [Elementary σ]

@[specialize] def ofParam (value : σ) : Shape :=
  let index := Scalar.round value
  if Scalar.eq index 1 then hardClip else if Scalar.eq index 2 then foldback else tube

@[specialize] def apply (s : Shape) (x : σ) : σ :=
  match s with
  | tube => Elementary.tanh x
  | hardClip => Scalar.clamp x (-1) 1
  | foldback =>
    let t := Scalar.modulo (x + 1) 4
    if Scalar.lt t 2 then t - 1 else 3 - t

end Shape

namespace Distortion

variable {σ : Type} [Elementary σ]

@[specialize] def params : List (ParamInfo σ) := [
  ⟨"Type", "", 0, 2, 0, true⟩,
  ⟨"Drive", "dB", 0, 40, 12, false⟩,
  ⟨"Mix", "", 0, 1, 1, false⟩]

/-- The settings of a block. -/
structure Settings (σ : Type) where
  shape : Shape
  drive : σ
  makeup : σ
  mix : σ

@[specialize] def settings (p : ParamValues σ) : Settings σ :=
  let drive := gainOfDecibels (p.at 1)
  ⟨Shape.ofParam (p.at 0), drive, 1 / Elementary.sqrt drive, p.at 2⟩

@[specialize] def apply (s : Settings σ) (x : Frame σ) : Frame σ :=
  x.map fun dry => dry + (s.shape.apply (dry * s.drive) * s.makeup - dry) * s.mix

end Distortion

end Multisample
