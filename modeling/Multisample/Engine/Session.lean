import Multisample.Effects.Chain
import Multisample.Engine.Layer
import Multisample.Engine.Midi

/-!
# The engine

Three layers of instruments feed the effect chain.  The player changes controls
at any time; each block begins with picking them up, applies its MIDI events,
renders the layers, runs the effects and moves the master gain to its target.
-/

namespace Multisample

/-- The player's side of the effects and of the output. -/
structure MixControls (σ : Type) where
  /-- The order of the effects as one word. -/
  order : UInt64
  enabled : List Bool
  /-- Targets of all parameters, effect by effect. -/
  params : List (List σ)
  masterDecibels : σ

structure Engine (σ π γ : Type) where
  layers : List (Layer σ)
  mix : MixControls σ
  /-- Impulse responses on their way to the reverb; nothing stands for taking it away. -/
  waiting : List (Option (Convolver σ γ))
  nextConvolver : Nat
  ensemble : Ensemble σ π γ
  chain : EffectChain σ π γ
  /-- The word that the order of the chain was last read from. -/
  appliedOrder : UInt64
  sampleRate : Nat
  attack : Duration
  release : Duration
  masterGain : σ
  /-- Voices that sounded after the last block. -/
  activeVoices : Nat
  /-- Regions that matched a note but could not sound. -/
  failedStarts : Nat
  blocks : Nat

/-- What an engine is made with. -/
structure EngineSetup where
  sampleRate : Nat
  maxVoices : Nat
  attack : Duration
  release : Duration
  retireCapacity : Nat
deriving Repr

/-- One block as the host asks for it; `room` is how many samples the output holds. -/
structure BlockRequest (π : Type) where
  frames : Nat
  sampleRate : Nat
  /-- Beats per minute. -/
  tempo : π
  midi : List MidiEvent
  room : Nat

namespace Engine

variable {σ π γ : Type}

def layerCount : Nat := 3

/-- How many impulse responses can wait for the next block. -/
def waitingLimit : Nat := 4

/-- The controller that silences every voice at once. -/
def allSoundOff : Nat := 120

/-- The controller that releases every held voice. -/
def allNotesOff : Nat := 123

/-- A time in frames, to the nearest one. -/
@[specialize] def framesFor (π : Type) [Scalar π] (d : Duration) (sampleRate : Nat) : Nat :=
  let seconds : π := Scalar.ofNat d.seconds + Scalar.ofNat d.subsecond / 1000000000
  Scalar.toNat (Scalar.round (seconds * Scalar.ofNat sampleRate))

/-- The targets of all parameters before any is set. -/
@[specialize] def defaultParams (σ : Type) [Elementary σ] : List (List σ) :=
  EffectKind.all.map fun kind => (EffectKind.params kind).map fun p => p.default

section controls

def modifyLayer (e : Engine σ π γ) (layer : Nat) (f : LayerControls σ → LayerControls σ) :
    Except HostError (Engine σ π γ) :=
  if layer < e.layers.length then
    .ok { e with layers := e.layers.modify layer fun l => { l with controls := f l.controls } }
  else .error (.noSuchLayer layer)

/-- Gives a layer another instrument, or none, from the next block on. -/
def setInstrument (e : Engine σ π γ) (layer : Nat) (instrument : Option (LoadedInstrument σ)) :
    Except HostError (Engine σ π γ) :=
  e.modifyLayer layer fun c => { c with instrument }

/-- The instrument that was set for a layer. -/
def instrument? (e : Engine σ π γ) (layer : Nat) : Option (LoadedInstrument σ) :=
  (e.layers[layer]?).bind fun l => l.controls.instrument

/-- The instrument that a layer plays. -/
def playing? (e : Engine σ π γ) (layer : Nat) : Option (LoadedInstrument σ) :=
  (e.layers[layer]?).bind fun l => l.instrument

/-- How many notes a layer was given since it picked up its instrument. -/
def counter? (e : Engine σ π γ) (layer : Nat) : Option Nat :=
  (e.layers[layer]?).map fun l => l.counter

/-- Sets the order of the effects for the next block. -/
def setOrder (e : Engine σ π γ) (kinds : List EffectKind) : Except HostError (Engine σ π γ) :=
  match EffectOrder.ofList? kinds with
  | some order => .ok { e with mix := { e.mix with order := order.pack } }
  | none => .error .invalidEffectOrder

/-- The order that was set last. -/
def order (e : Engine σ π γ) : EffectOrder :=
  (EffectOrder.unpack? e.mix.order).getD .default

def setEnabled (e : Engine σ π γ) (kind : EffectKind) (enabled : Bool) : Engine σ π γ :=
  { e with mix := { e.mix with enabled := e.mix.enabled.set kind.index enabled } }

/-- The target that was set for a parameter. -/
def param? (e : Engine σ π γ) (kind : EffectKind) (index : Nat) : Option σ :=
  (e.mix.params[kind.index]?).bind fun values => values[index]?

/-- Frees what has been retired so far. -/
def collect (e : Engine σ π γ) : Engine σ π γ × Nat :=
  let (ensemble, freed) := e.ensemble.collect
  ({ e with ensemble }, freed)

/-- How many items found the retire queue full since it was last emptied. -/
def overflow (e : Engine σ π γ) : Nat :=
  e.ensemble.queue.overflow

variable [Elementary σ]

@[specialize] def setMaster (e : Engine σ π γ) (decibels : σ) : Engine σ π γ :=
  { e with mix := { e.mix with masterDecibels := Scalar.clamp decibels (-96) 12 } }

@[specialize] def setParam (e : Engine σ π γ) (kind : EffectKind) (index : Nat) (value : σ) :
    Except HostError (Engine σ π γ) :=
  match (EffectKind.params kind)[index]? with
  | none => .error (.noSuchParam index)
  | some (p : ParamInfo σ) =>
    let params := e.mix.params.modify kind.index fun values => values.set index (p.clamp value)
    .ok { e with mix := { e.mix with params } }

variable [Elementary π] [Precision σ π] [Transform σ γ]

/-- Prepares an impulse response at the present rate and queues it, or queues its removal; a full
queue refuses. -/
@[specialize] def setResponse (e : Engine σ π γ) (response : Option (AudioBuffer σ)) :
    Engine σ π γ × Bool :=
  if e.waiting.length < waitingLimit then
    let next := response.map fun a => Convolver.build π e.nextConvolver a e.sampleRate
    ({ e with waiting := e.waiting ++ [next], nextConvolver := e.nextConvolver + 1 }, true)
  else (e, false)

end controls

variable [Elementary σ] [Elementary π] [Precision σ π] [Transform σ γ]

@[specialize] def create (s : EngineSetup) : Engine σ π γ where
  layers := (List.range layerCount).map Layer.ofIndex
  mix := ⟨EffectOrder.default.pack, EffectKind.all.map fun _ => false, defaultParams σ, 0⟩
  waiting := []
  nextConvolver := 0
  ensemble := {
    pool := VoicePool.empty s.maxVoices (framesFor π s.attack s.sampleRate)
      (framesFor π s.release s.sampleRate)
    queue := RetireQueue.empty s.retireCapacity }
  chain := EffectChain.ofRate (Scalar.ofNat s.sampleRate)
  appliedOrder := EffectOrder.default.pack
  sampleRate := s.sampleRate
  attack := s.attack
  release := s.release
  masterGain := 1
  activeVoices := 0
  failedStarts := 0
  blocks := 0

/-- Puts a convolver into the reverb and retires the one that was there. -/
@[specialize] def installConvolver (e : Engine σ π γ) (next : Option (Convolver σ γ)) :
    Engine σ π γ :=
  let (chain, previous) := e.chain.swapConvolver next
  let ensemble := match previous with
    | some c => e.ensemble.retire (.convolver c)
    | none => e.ensemble
  { e with chain, ensemble }

/-- Moves to another rate: every voice stops, effects are cleared and the reverb loses its impulse
response. -/
@[specialize] def setRate (e : Engine σ π γ) (sampleRate : Nat) : Engine σ π γ :=
  if sampleRate = e.sampleRate then e
  else
    let ensemble := e.ensemble.killAll none
    let pool := ensemble.pool.setEnvelope (framesFor π e.attack sampleRate)
      (framesFor π e.release sampleRate)
    let e := { e with sampleRate, ensemble := { ensemble with pool } }
    let e := e.installConvolver none
    { e with chain := e.chain.setRate (Scalar.ofNat sampleRate) }

/-- Picks up the order of the effects if it has changed. -/
@[specialize] def applyOrder (e : Engine σ π γ) : Engine σ π γ :=
  if e.mix.order = e.appliedOrder then e
  else
    let chain := match EffectOrder.unpack? e.mix.order with
      | some order => { e.chain with order }
      | none => e.chain
    { e with chain, appliedOrder := e.mix.order }

/-- Turns one effect on or off and sets its targets. -/
@[specialize] def applyEffect (mix : MixControls σ) (chain : EffectChain σ π γ) (kind : EffectKind) :
    EffectChain σ π γ :=
  let chain := chain.setEnabled kind (mix.enabled.getD kind.index false)
  let targets := mix.params.getD kind.index []
  targets.zipIdx.foldl
    (fun chain (value, index) => (chain.setParam kind index value).toOption.getD chain) chain

/-- Picks up everything that was set for the effects. -/
@[specialize] def applyControls (e : Engine σ π γ) : Engine σ π γ :=
  let e := e.applyOrder
  let e := { e with chain := EffectKind.all.foldl (applyEffect e.mix) e.chain }
  let e := e.waiting.foldl installConvolver e
  { e with waiting := [] }

/-- Every layer picks up its instrument. -/
def syncLayers (e : Engine σ π γ) : Engine σ π γ :=
  let (ensemble, layers) := runOver Layer.sync e.ensemble e.layers
  { e with ensemble, layers }

/-- What a message does to one layer, and how many regions could not start. -/
@[specialize] def applyMessage (message : MidiMessage) (state : Ensemble σ π γ × Nat) (l : Layer σ) :
    (Ensemble σ π γ × Nat) × Layer σ :=
  let (ensemble, failed) := state
  match message with
  | .noteOn channel key velocity =>
    if l.controls.accepts channel then
      let (l, ensemble, more) := l.noteOn key velocity channel ensemble
      ((ensemble, failed + more), l)
    else (state, l)
  | .noteOff channel key =>
    if l.controls.accepts channel then
      let (ensemble, more) := l.noteOff key channel ensemble
      ((ensemble, failed + more), l)
    else (state, l)
  | .controller channel number =>
    if l.controls.accepts channel then
      if number = allSoundOff then ((ensemble.killAll (some l.index), failed), l)
      else if number = allNotesOff then ((ensemble.releaseAll (some l.index), failed), l)
      else (state, l)
    else (state, l)

/-- Applies one MIDI event to every layer that listens to its channel. -/
@[specialize] def handleMidi (e : Engine σ π γ) (event : MidiEvent) : Engine σ π γ :=
  match event.message? with
  | none => e
  | some message =>
    let ((ensemble, failed), layers) := runOver (applyMessage message) (e.ensemble, 0) e.layers
    { e with ensemble, layers, failedStarts := e.failedStarts + failed }

/-- Renders all layers into a silent block. -/
@[specialize] def renderLayers (e : Engine σ π γ) (frames : Nat) : Engine σ π γ × List (Frame σ) :=
  let render (state : VoicePool σ π × List (Frame σ)) (l : Layer σ) :=
    let (l, pool, mix) := l.render e.sampleRate state.1 state.2
    ((pool, mix), l)
  let silent := List.replicate frames Frame.silence
  let ((pool, mix), layers) := runOver render (e.ensemble.pool, silent) e.layers
  ({ e with layers, ensemble := { e.ensemble with pool } }, mix)

/-- Applies the master gain, which reaches its target with the last frame. -/
@[specialize] def applyMaster (e : Engine σ π γ) (mix : List (Frame σ)) :
    Engine σ π γ × List (Frame σ) :=
  let target := gainOfDecibels e.mix.masterDecibels
  let gains := ramp e.masterGain target mix.length
  ({ e with masterGain := target }, List.zipWith Frame.scale mix gains)

/-- Why a block is refused, if it is. -/
def refusal? (e : Engine σ π γ) (b : BlockRequest π) : Option HostError :=
  if maxBlock < b.frames then some (.blockTooLarge b.frames maxBlock)
  else if b.sampleRate ≠ e.sampleRate then some (.rateMismatch e.sampleRate b.sampleRate)
  else if b.room < b.frames * 2 then some (.outputTooSmall (b.frames * 2) b.room)
  else none

/-- Renders one block; a refused one changes nothing. -/
@[specialize] def process (e : Engine σ π γ) (b : BlockRequest π) :
    Except HostError (Engine σ π γ × List (Frame σ)) :=
  match e.refusal? b with
  | some error => .error error
  | none =>
    let e := e.applyControls.syncLayers
    let e := b.midi.foldl handleMidi e
    let (e, mix) := e.renderLayers b.frames
    let (chain, mix) := e.chain.process ⟨b.tempo⟩ mix
    let (e, out) := { e with chain }.applyMaster mix
    let ensemble := e.ensemble.endBlock
    .ok ({ e with
      ensemble
      activeVoices := ensemble.pool.activeCount
      blocks := e.blocks + 1 }, out)

end Engine

end Multisample
