import Multisample.Playback.Envelope
import Multisample.Playback.Streamer

/-!
# The voice pool

A fixed number of slots, each free or holding one sounding voice.  When all are
taken a new voice evicts one that is on its way out, else the quietest.  A
voice that leaves its slot gives its sound back: every operation says which
sounds it let go of.
-/

namespace Multisample

/-- A decoded buffer together with its identity in memory. -/
structure Sound (σ : Type) where
  id : Nat
  buffer : AudioBuffer σ
deriving Inhabited

/-- What a voice needs to start; a one-shot ignores the release of its key. -/
structure VoiceStart (σ π : Type) where
  layer : Nat
  key : Nat
  channel : Nat
  sound : Sound σ
  sampleLoop : Option ResolvedLoop
  ratio : π
  gain : σ
  oneShot : Bool

/-- A sounding voice; serial numbers tell which started first. -/
structure Voice (σ π : Type) extends VoiceStart σ π where
  streamer : Streamer π
  envelope : Envelope σ
  serial : Nat

structure VoicePool (σ π : Type) where
  slots : List (Option (Voice σ π))
  nextSerial : Nat
  attackFrames : Nat
  releaseFrames : Nat

/-- Playback rate for a distance in keys: twelve of them double it. -/
@[specialize] def pitchRatio {π : Type} [Elementary π] (key rootKey : Nat) : π :=
  Elementary.pow 2 ((Scalar.ofNat key - Scalar.ofNat rootKey) / 12)

namespace Voice

variable {σ π : Type}

def isFinished (v : Voice σ π) : Bool :=
  v.streamer.finished || v.envelope.isDone

def isLeaving (v : Voice σ π) : Bool :=
  v.envelope.isReleasing || v.isFinished

/-- Whether letting go of a key stops this voice. -/
def isHeldBy (v : Voice σ π) (layer key channel : Nat) : Bool :=
  !v.oneShot && v.layer == layer && v.key == key && v.channel == channel

def release (v : Voice σ π) : Voice σ π :=
  { v with envelope := v.envelope.release }

variable [Scalar σ] [Scalar π] [Precision σ π]

/-- One frame of a voice at a step through its buffer. -/
@[specialize] def next (v : Voice σ π) (step : π) : Voice σ π × Frame σ :=
  let (streamer, frame) := v.streamer.next v.sound.buffer step
  let envelope := v.envelope.next
  ({ v with streamer, envelope }, frame.scale (envelope.level * v.gain))

/-- Adds a voice to a block; once it has finished the rest of the block stays as it is. -/
@[specialize] def addTo (step : π) : Voice σ π → List (Frame σ) → Voice σ π × List (Frame σ)
  | v, [] => (v, [])
  | v, x :: rest =>
    if v.isFinished then (v, x :: rest)
    else
      let (v, y) := v.next step
      let (v, ys) := addTo step v rest
      (v, x.add y :: ys)

/-- Frames of the buffer per frame of output. -/
@[specialize] def step (v : Voice σ π) (outputRate : Nat) : π :=
  v.ratio * Scalar.ofNat v.sound.buffer.rate / Scalar.ofNat outputRate

end Voice

namespace VoicePool

variable {σ π : Type}

/-- A pool of free slots; envelope times are in output frames. -/
def empty (capacity attackFrames releaseFrames : Nat) : VoicePool σ π :=
  ⟨List.replicate capacity none, 0, attackFrames, releaseFrames⟩

def capacity (p : VoicePool σ π) : Nat :=
  p.slots.length

/-- The voices that sound, with their slots. -/
def voices (p : VoicePool σ π) : List (Voice σ π × Nat) :=
  p.slots.zipIdx.filterMap fun (slot, index) => slot.map (·, index)

def activeCount (p : VoicePool σ π) : Nat :=
  p.voices.length

def activeIn (p : VoicePool σ π) (layer : Nat) : Nat :=
  (p.voices.filter fun (v, _) => v.layer == layer).length

def setEnvelope (p : VoicePool σ π) (attackFrames releaseFrames : Nat) : VoicePool σ π :=
  { p with attackFrames, releaseFrames }

/-- The first element that no later one is strictly before. -/
@[specialize] def least? {α : Type} (before : α → α → Bool) : List α → Option α
  | [] => none
  | x :: rest => some (rest.foldl (fun best y => if before y best then y else best) x)

section start

variable [Scalar σ] [Scalar π]

/-- Whether a voice is evicted before another: the quieter one, then the one that started first. -/
@[specialize] def quieter (v w : Voice σ π) : Bool :=
  Scalar.lt v.envelope.level w.envelope.level
    || (!Scalar.lt w.envelope.level v.envelope.level && v.serial < w.serial)

/-- The slot for a new voice: a free one, the oldest that is leaving, or the quietest. -/
@[specialize] def slotFor? (p : VoicePool σ π) : Option Nat :=
  match p.slots.findIdx? Option.isNone with
  | some index => some index
  | none =>
    match least? (fun v w => v.1.serial < w.1.serial) (p.voices.filter fun (v, _) => v.isLeaving) with
    | some (_, index) => some index
    | none => (least? (fun v w => quieter v.1 w.1) p.voices).map (·.2)

/-- What starting a voice did: the slot it got, and the sound it took the place of. -/
structure Started (σ π : Type) where
  pool : VoicePool σ π
  slot : Option Nat
  released : List (Sound σ)

@[specialize] def start (p : VoicePool σ π) (v : VoiceStart σ π) : Started σ π :=
  match slotFor? p with
  | none => ⟨p, none, []⟩
  | some index =>
    let voice : Voice σ π :=
      { v with
        streamer := Streamer.start v.sampleLoop
        envelope := Envelope.start p.attackFrames p.releaseFrames
        serial := p.nextSerial }
    let released := ((p.slots[index]?).join.map fun old => old.sound).toList
    ⟨{ p with slots := p.slots.set index (some voice), nextSerial := p.nextSerial + 1 },
      some index, released⟩

end start

def mapVoices (p : VoicePool σ π) (f : Voice σ π → Voice σ π) : VoicePool σ π :=
  { p with slots := p.slots.map (Option.map f) }

/-- Frees the slots of the voices that satisfy a test and gives their sounds back. -/
def free (p : VoicePool σ π) (test : Voice σ π → Bool) : VoicePool σ π × List (Sound σ) :=
  ({ p with slots := p.slots.map fun slot => slot.filter fun v => !test v },
    (p.voices.filter fun (v, _) => test v).map fun (v, _) => v.sound)

/-- Lets go of the voices that a key on a channel holds in a layer. -/
def release (p : VoicePool σ π) (layer key channel : Nat) : VoicePool σ π :=
  p.mapVoices fun v => if v.isHeldBy layer key channel then v.release else v

/-- Lets go of every voice but one-shots, in one layer or in all. -/
def releaseAll (p : VoicePool σ π) (layer : Option Nat) : VoicePool σ π :=
  p.mapVoices fun v => if !v.oneShot && layer.all (· == v.layer) then v.release else v

/-- Silences every voice at once, in one layer or in all. -/
def killAll (p : VoicePool σ π) (layer : Option Nat) : VoicePool σ π × List (Sound σ) :=
  p.free fun v => layer.all (· == v.layer)

/-- Frees the voices that have finished. -/
def endBlock (p : VoicePool σ π) : VoicePool σ π × List (Sound σ) :=
  p.free Voice.isFinished

section render

variable [Scalar σ] [Scalar π] [Precision σ π]

/-- Adds the voices of a layer to a block, slot by slot. -/
@[specialize] def renderLayer (p : VoicePool σ π) (layer outputRate : Nat)
    (block : List (Frame σ)) : VoicePool σ π × List (Frame σ) :=
  let render (acc : List (Option (Voice σ π)) × List (Frame σ)) (slot : Option (Voice σ π)) :=
    match slot with
    | none => (none :: acc.1, acc.2)
    | some v =>
      if v.layer == layer then
        let (v, block) := Voice.addTo (v.step outputRate) v acc.2
        (some v :: acc.1, block)
      else (some v :: acc.1, acc.2)
  let (slots, block) := p.slots.foldl render ([], block)
  ({ p with slots := slots.reverse }, block)

end render

end VoicePool

end Multisample
