import Multisample.Effects.Order
import Multisample.Effects.Smoother
import Multisample.Error

/-!
# The effect chain

Every effect has a slot.  Turning an effect on or off fades between the signal
in front of it and the processed one, frame by frame; an effect that has faded
out is cleared and rests until it is turned on again.
-/

namespace Multisample

/-- A parameter of a slot: where it is heading, and what the effect was last given. -/
structure ParamState (σ : Type) where
  info : ParamInfo σ
  smoother : Smoother σ
  value : σ

namespace ParamState

variable {σ : Type}

@[specialize] def ofInfo [Elementary σ] (sampleRate : σ) (info : ParamInfo σ) : ParamState σ :=
  ⟨info, Smoother.ofValue info.default sampleRate, info.default⟩

/-- Heads for a value, clamped to the range of the parameter. -/
@[specialize] def aim [Scalar σ] (p : ParamState σ) (value : σ) : ParamState σ :=
  { p with smoother := p.smoother.setTarget (p.info.clamp value) }

/-- One block closer to the target, and never more than the longest one; a discrete parameter is
there at once. -/
@[specialize] def advance [Scalar σ] (frames : Nat) (p : ParamState σ) : ParamState σ :=
  if p.info.discrete then { p with value := p.smoother.target }
  else
    let smoother := p.smoother.advance (min frames maxBlock)
    { p with smoother, value := smoother.current }

@[specialize] def setRate [Elementary σ] (sampleRate : σ) (p : ParamState σ) : ParamState σ :=
  { p with smoother := p.smoother.setRate sampleRate }

end ParamState

/-- An effect in the chain; `wet` runs from the dry signal at 0 to the processed one at 1. -/
structure ChainSlot (σ π γ : Type) where
  effect : Effect σ π γ
  params : List (ParamState σ)
  enabled : Bool
  wet : σ

namespace ChainSlot

variable {σ π γ : Type} [Elementary σ] [Elementary π] [Precision σ π] [Transform σ γ]

@[specialize] def ofKind (sampleRate : σ) (kind : EffectKind) : ChainSlot σ π γ :=
  ⟨Effect.ofKind sampleRate kind, (EffectKind.params kind).map (ParamState.ofInfo sampleRate), false, 0⟩

def values (s : ChainSlot σ π γ) : ParamValues σ :=
  s.params.map fun p => p.value

@[specialize] def setRate (sampleRate : σ) (s : ChainSlot σ π γ) : ChainSlot σ π γ :=
  { s with
    effect := s.effect.setRate sampleRate
    params := s.params.map (ParamState.setRate sampleRate) }

/-- The crossfade position one frame on: up while it is below its target, and else down. -/
@[specialize] def fade (step : σ) (enabled : Bool) (wet : σ) : σ :=
  let target : σ := if enabled then 1 else 0
  if Scalar.lt wet target then Scalar.min (wet + step) 1 else Scalar.max (wet - step) 0

/-- Fades between two blocks, frame by frame. -/
@[specialize] def crossfade (step : σ) (enabled : Bool) (wet : σ) (dry processed : List (Frame σ)) :
    σ × List (Frame σ) :=
  runOver
    (fun wet (x : Frame σ × Frame σ) =>
      let wet := fade step enabled wet
      (wet, x.1.blend x.2 wet))
    wet (dry.zip processed)

/-- Whether the slot leaves the signal alone. -/
@[specialize] def rests (s : ChainSlot σ π γ) : Bool :=
  Scalar.eq s.wet 0 && !s.enabled

@[specialize] def process (fadeStep : σ) (ctx : BlockContext π) (s : ChainSlot σ π γ)
    (block : List (Frame σ)) : ChainSlot σ π γ × List (Frame σ) :=
  if s.rests then (s, block)
  else
    let s := { s with params := s.params.map (ParamState.advance block.length) }
    let (effect, out) := s.effect.process s.values ctx block
    if Scalar.eq s.wet 1 && s.enabled then ({ s with effect }, out)
    else
      let (wet, mixed) := crossfade fadeStep s.enabled s.wet block out
      ({ s with wet, effect := if Scalar.eq wet 0 then effect.reset else effect }, mixed)

end ChainSlot

structure EffectChain (σ π γ : Type) where
  /-- One slot for each kind, in the default order. -/
  slots : Vector (ChainSlot σ π γ) EffectKind.all.length
  order : EffectOrder
  /-- How far a fade gets in one frame. -/
  fadeStep : σ

theorem EffectKind.index_lt (kind : EffectKind) : kind.index < EffectKind.all.length := by
  cases kind <;> decide

namespace EffectChain

variable {σ π γ : Type}

def slot (c : EffectChain σ π γ) (kind : EffectKind) : ChainSlot σ π γ :=
  c.slots.get ⟨kind.index, kind.index_lt⟩

def setSlot (c : EffectChain σ π γ) (kind : EffectKind) (s : ChainSlot σ π γ) : EffectChain σ π γ :=
  { c with slots := c.slots.set kind.index s kind.index_lt }

def modifySlot (c : EffectChain σ π γ) (kind : EffectKind)
    (f : ChainSlot σ π γ → ChainSlot σ π γ) : EffectChain σ π γ :=
  c.setSlot kind (f (c.slot kind))

def setOrder (c : EffectChain σ π γ) (kinds : List EffectKind) :
    Except HostError (EffectChain σ π γ) :=
  match EffectOrder.ofList? kinds with
  | some order => .ok { c with order }
  | none => .error .invalidEffectOrder

def setEnabled (c : EffectChain σ π γ) (kind : EffectKind) (enabled : Bool) : EffectChain σ π γ :=
  c.modifySlot kind fun s => { s with enabled }

def isEnabled (c : EffectChain σ π γ) (kind : EffectKind) : Bool :=
  (c.slot kind).enabled

/-- What the effect was given for its last block. -/
def paramValue? (c : EffectChain σ π γ) (kind : EffectKind) (index : Nat) : Option σ :=
  ((c.slot kind).params[index]?).map fun p => p.value

/-- The convolver that a chain with a convolution reverb has put in its place, and the one before. -/
def swapConvolver (c : EffectChain σ π γ) (next : Option (Convolver σ γ)) :
    EffectChain σ π γ × Option (Convolver σ γ) :=
  let previous := (c.slot .convolution).effect.convolver?
  (c.modifySlot .convolution fun s => { s with effect := .convolution next }, previous)

/-- The longest time that turning an effect on or off takes, in seconds. -/
@[specialize] def fadeSeconds {σ : Type} [Scalar σ] : σ := 0.01

@[specialize] def fadeStepFor {σ : Type} [Scalar σ] (sampleRate : σ) : σ :=
  1 / Scalar.max (fadeSeconds * sampleRate) 1

section

variable [Elementary σ]

/-- Heads for a parameter value; the range of the parameter holds it in. -/
@[specialize] def setParam (c : EffectChain σ π γ) (kind : EffectKind) (index : Nat) (value : σ) :
    Except HostError (EffectChain σ π γ) :=
  if index < (c.slot kind).params.length then
    .ok (c.modifySlot kind fun s => { s with params := s.params.modify index fun p => p.aim value })
  else .error (.noSuchParam index)

variable [Elementary π] [Precision σ π] [Transform σ γ]

/-- All effects, turned off, in their default order. -/
@[specialize] def ofRate (sampleRate : σ) : EffectChain σ π γ :=
  ⟨⟨(EffectKind.all.map (ChainSlot.ofKind sampleRate)).toArray, by simp⟩, .default,
    fadeStepFor sampleRate⟩

/-- Clears the state of every effect; parameters and fades stay as they are. -/
@[specialize] def reset (c : EffectChain σ π γ) : EffectChain σ π γ :=
  { c with slots := c.slots.map fun s => { s with effect := s.effect.reset } }

@[specialize] def setRate (c : EffectChain σ π γ) (sampleRate : σ) : EffectChain σ π γ :=
  { c with slots := c.slots.map (ChainSlot.setRate sampleRate), fadeStep := fadeStepFor sampleRate }

/-- Runs a block through the slots of some kinds, one after the other. -/
@[specialize] def processSlots (ctx : BlockContext π) :
    List EffectKind → EffectChain σ π γ → List (Frame σ) → EffectChain σ π γ × List (Frame σ)
  | [], c, block => (c, block)
  | kind :: rest, c, block =>
    let (s, block) := (c.slot kind).process c.fadeStep ctx block
    processSlots ctx rest (c.setSlot kind s) block

@[specialize] def process (c : EffectChain σ π γ) (ctx : BlockContext π) (block : List (Frame σ)) :
    EffectChain σ π γ × List (Frame σ) :=
  processSlots ctx c.order.kinds c block

end

end EffectChain

end Multisample
