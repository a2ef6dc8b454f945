import Multisample.Numeric.Scalar

/-!
# Levels

Decibels, pan positions and note velocities as factors on samples.
-/

namespace Multisample

section

variable {σ : Type} [Elementary σ]

/-- Decibels as a factor; from -96 down there is silence. -/
@[specialize] def gainOfDecibels (db : σ) : σ :=
  if Scalar.le db (-96) then 0 else Elementary.pow 10 (db / 20)

/-- Equal-power gains of the two sides for a position from -1 to 1. -/
@[specialize] def panGains (pan : σ) : σ × σ :=
  let angle := (Scalar.clamp pan (-1) 1 + 1) * (Elementary.pi / 4)
  (Elementary.cos angle, Elementary.sin angle)

end

/-- A velocity as a factor: amount 0 ignores it, amount 1 follows it in a straight line. -/
@[specialize] def velocityGain {σ : Type} [Scalar σ] (velocity : Nat) (amount : σ) : σ :=
  let amount := Scalar.clamp amount 0 1
  1 - amount + amount * Scalar.ofNat (min velocity 127) / 127

end Multisample
