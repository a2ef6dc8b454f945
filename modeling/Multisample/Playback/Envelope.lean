import Multisample.Numeric.Scalar

/-!
# Envelopes

The loudness of a voice over time: up in a straight line, held until the key is
let go, down in a straight line, done.
-/

namespace Multisample

inductive Stage where
  | attack
  | sustain
  | release
  | done
deriving DecidableEq, Repr, Inhabited

def Stage.text : Stage → String
  | attack => "attack"
  | sustain => "sustain"
  | release => "release"
  | done => "done"

structure Envelope (σ : Type) where
  stage : Stage
  level : σ
  attackStep : σ
  releaseStep : σ
deriving Repr

namespace Envelope

variable {σ : Type} [Scalar σ]

/-- Starts the attack; without attack frames the level is full at once. -/
@[specialize] def start (attackFrames releaseFrames : Nat) : Envelope σ where
  stage := if attackFrames = 0 then .sustain else .attack
  level := if attackFrames = 0 then 1 else 0
  attackStep := 1 / Scalar.ofNat (max attackFrames 1)
  releaseStep := 1 / Scalar.ofNat (max releaseFrames 1)

def isReleasing (e : Envelope σ) : Bool :=
  e.stage == .release

def isDone (e : Envelope σ) : Bool :=
  e.stage == .done

/-- Falls from the present level, so an attack cut short fades out without a jump. -/
def release (e : Envelope σ) : Envelope σ :=
  match e.stage with
  | .attack | .sustain => { e with stage := .release }
  | .release | .done => e

/-- Moves on by one frame; the level is the one of that frame. -/
@[specialize] def next (e : Envelope σ) : Envelope σ :=
  match e.stage with
  | .attack =>
    let level := e.level + e.attackStep
    if Scalar.le 1 level then { e with level := 1, stage := .sustain } else { e with level }
  | .release =>
    let level := e.level - e.releaseStep
    if Scalar.le level 0 then { e with level := 0, stage := .done } else { e with level }
  | .sustain | .done => e

end Envelope

end Multisample
