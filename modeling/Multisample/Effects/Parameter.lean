import Multisample.Audio.Frame

/-!
# Effect parameters

Every effect names its parameters with their units, ranges and defaults.  A
discrete parameter is a whole number that switches at block boundaries; any
other glides.
-/

namespace Multisample

/-- The largest block any effect is asked to process, in frames. -/
def maxBlock : Nat := 128

structure ParamInfo (σ : Type) where
  name : String
  unit : String
  low : σ
  high : σ
  default : σ
  discrete : Bool := false
deriving Repr

/-- A value inside the range; of a discrete parameter, the nearest whole number. -/
@[specialize] def ParamInfo.clamp {σ : Type} [Scalar σ] (p : ParamInfo σ) (value : σ) : σ :=
  let value := Scalar.clamp value p.low p.high
  if p.discrete then Scalar.round value else value

/-- The values of an effect's parameters, by position. -/
abbrev ParamValues (σ : Type) := List σ

@[specialize] def ParamValues.at {σ : Type} [Scalar σ] (values : ParamValues σ) (index : Nat) : σ :=
  values.getD index 0

/-- What the host tells an effect about a block. -/
structure BlockContext (π : Type) where
  /-- Beats per minute. -/
  tempo : π
deriving Repr

end Multisample
