import Multisample.Engine.Ensemble
import Multisample.Numeric.Level
import Multisample.Playback.Selection

/-!
# Instrument layers

A layer plays one instrument under its own controls.  A new instrument is
picked up at the start of a block: the voices of the one before are released,
and it goes to the retire queue.
-/

namespace Multisample

/-- What the player sets for a layer; it takes effect with the next block. -/
structure LayerControls (σ : Type) where
  instrument : Option (LoadedInstrument σ)
  gainDecibels : σ
  pan : σ
  timbre : Nat
  /-- 0 listens to every channel, 1 to 16 to that channel only. -/
  channel : Nat
  /-- How far the velocity of a note scales its loudness, 0 to 1. -/
  velocityAmount : σ
  muted : Bool

namespace LayerControls

variable {σ : Type} [Scalar σ]

@[specialize] def default : LayerControls σ :=
  ⟨none, 0, 0, 50, 0, 1, false⟩

@[specialize] def setGain (c : LayerControls σ) (decibels : σ) : LayerControls σ :=
  { c with gainDecibels := Scalar.clamp decibels (-96) 12 }

@[specialize] def setPan (c : LayerControls σ) (pan : σ) : LayerControls σ :=
  { c with pan := Scalar.clamp pan (-1) 1 }

@[specialize] def setVelocityAmount (c : LayerControls σ) (amount : σ) : LayerControls σ :=
  { c with velocityAmount := Scalar.clamp amount 0 1 }

omit [Scalar σ] in
/-- Sets the timbre knob, 0 to 99. -/
def setTimbre (c : LayerControls σ) (timbre : Nat) : LayerControls σ :=
  { c with timbre := min timbre 99 }

omit [Scalar σ] in
/-- Listens to one channel, counted from 1, or to all. -/
def setChannel (c : LayerControls σ) (channel : Option Nat) : LayerControls σ :=
  { c with channel := (channel.map fun n => max 1 (min n 16)).getD 0 }

omit [Scalar σ] in
/-- Whether messages on a channel, counted from 0, reach the layer. -/
def accepts (c : LayerControls σ) (channel : Nat) : Bool :=
  c.channel == 0 || c.channel == channel + 1

end LayerControls

/-- Gains that move in a straight line over a block and end at the target. -/
@[specialize] def rampFrom {σ : Type} [Scalar σ] (step : σ) : σ → Nat → List σ
  | _, 0 => []
  | gain, frames + 1 => (gain + step) :: rampFrom step (gain + step) frames

@[specialize] def ramp {σ : Type} [Scalar σ] (start target : σ) (frames : Nat) : List σ :=
  rampFrom ((target - start) / Scalar.ofNat (max frames 1)) start frames

structure Layer (σ : Type) where
  index : Nat
  controls : LayerControls σ
  /-- The instrument that the layer plays. -/
  instrument : Option (LoadedInstrument σ)
  /-- How many notes the instrument was given; it wraps at 32 bits. -/
  counter : Nat
  /-- The velocity of the last note on each key. -/
  velocities : Array Nat
  /-- The gains of the two sides at the end of the block before. -/
  gains : Frame σ

namespace Layer

variable {σ π γ : Type} [Elementary σ]

@[specialize] def ofIndex (index : Nat) : Layer σ :=
  let (left, right) := panGains (0 : σ)
  ⟨index, .default, none, 0, Array.replicate 128 0, ⟨left, right⟩⟩

omit [Elementary σ] in
/-- Whether another instrument was set than the one that plays. -/
def isStale (l : Layer σ) : Bool :=
  (l.controls.instrument.map fun i => i.id) != (l.instrument.map fun i => i.id)

omit [Elementary σ] in
/-- Picks up a newly set instrument. -/
def sync (e : Ensemble σ π γ) (l : Layer σ) : Ensemble σ π γ × Layer σ :=
  if l.isStale then
    let e := e.releaseAll (some l.index)
    let e := match l.instrument with
      | some previous => e.retire (.instrument previous)
      | none => e
    (e, { l with instrument := l.controls.instrument, counter := 0 })
  else (e, l)

section notes

variable [Elementary π]

/-- What a region contributes to a note: a voice to start, or nothing when it cannot play. -/
@[specialize] def voiceFor? (l : Layer σ) (i : LoadedInstrument σ) (key channel : Nat) (gain : σ)
    (oneShot : Bool) (hit : Triggered σ) : Option (VoiceStart σ π) := do
  let playable ← i.region? hit.region
  let region ← i.instrument.regions[hit.region]?
  return {
    layer := l.index
    key
    channel
    sound := playable.sound
    sampleLoop := playable.sampleLoop
    ratio := pitchRatio key region.file.rootKey
    gain := gain * hit.gain
    oneShot }

/-- Starts the voices of the triggered regions and counts those that could not start. -/
@[specialize] def startVoices (l : Layer σ) (i : LoadedInstrument σ) (key channel : Nat) (gain : σ)
    (oneShot : Bool) (e : Ensemble σ π γ) (hits : List (Triggered σ)) : Ensemble σ π γ × Nat :=
  hits.foldl
    (fun (e, failed) hit =>
      match (l.voiceFor? i key channel gain oneShot hit : Option (VoiceStart σ π)) with
      | none => (e, failed + 1)
      | some v =>
        let (e, slot) := e.start v
        (e, if slot.isSome then failed else failed + 1))
    (e, 0)

/-- The event that a key means to the regions of the layer. -/
def event (l : Layer σ) (kind : TriggerEvent) (key velocity : Nat) : NoteEvent :=
  ⟨kind, key, Selection.percent velocity, l.counter, l.controls.timbre⟩

/-- Starts the regions of a note on, and counts those that could not start. -/
@[specialize] def noteOn (l : Layer σ) (key velocity channel : Nat) (e : Ensemble σ π γ) :
    Layer σ × Ensemble σ π γ × Nat :=
  match l.instrument with
  | none => (l, e, 0)
  | some i =>
    let hits := Selection.select i.instrument (l.event .noteOn key velocity)
    let gain := velocityGain velocity l.controls.velocityAmount
    let (e, failed) := l.startVoices i key channel gain false e hits
    ({ l with
        velocities := l.velocities.setIfInBounds (key % 128) velocity
        counter := (l.counter + 1) % (1 <<< 32) }, e, failed)

/-- Releases the voices that a key holds and starts its note-off regions as one-shots. -/
@[specialize] def noteOff (l : Layer σ) (key channel : Nat) (e : Ensemble σ π γ) :
    Ensemble σ π γ × Nat :=
  let e := e.release l.index key channel
  match l.instrument with
  | none => (e, 0)
  | some i =>
    let velocity := l.velocities.getD (key % 128) 0
    let hits := Selection.select i.instrument (l.event .noteOff key velocity)
    l.startVoices i key channel (velocityGain velocity l.controls.velocityAmount) true e hits

end notes

/-- The gains that the controls ask for. -/
@[specialize] def targetGains (l : Layer σ) : Frame σ :=
  if l.controls.muted then Frame.silence
  else
    let gain := gainOfDecibels l.controls.gainDecibels
    let (left, right) := panGains l.controls.pan
    ⟨left * gain, right * gain⟩

/-- Adds the layer to a block, its gains moving on from those of the block before; without a voice
they are there at once. -/
@[specialize] def render [Elementary π] [Precision σ π] (l : Layer σ) (sampleRate : Nat)
    (pool : VoicePool σ π) (mix : List (Frame σ)) : Layer σ × VoicePool σ π × List (Frame σ) :=
  let target := l.targetGains
  if pool.activeIn l.index = 0 then ({ l with gains := target }, pool, mix)
  else
    let (pool, block) := pool.renderLayer l.index sampleRate (mix.map fun _ => Frame.silence)
    let lefts := ramp l.gains.left target.left mix.length
    let rights := ramp l.gains.right target.right mix.length
    let gains := List.zipWith Frame.mk lefts rights
    let mix := List.zipWith (fun out (x : Frame σ × Frame σ) =>
      out.add ⟨x.1.left * x.2.left, x.1.right * x.2.right⟩) mix (block.zip gains)
    ({ l with gains := target }, pool, mix)

end Layer

end Multisample
