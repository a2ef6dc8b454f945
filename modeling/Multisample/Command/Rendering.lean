import Multisample.Audio.Decoding
import Multisample.Engine.Session

/-!
# Rendering a note

A note of an instrument is played block by block until its frames are used up: it
begins with the first block and is released in the block that its release falls
into, if it does.
-/

namespace Multisample

/-- A note to render; times are in seconds. -/
structure RenderRequest where
  /-- The folder of the library, or its script. -/
  library : String
  instrument : String
  output : String
  key : Nat := 60
  velocity : Nat := 100
  hold : Float := 1
  length : Float := 3
  /-- The impulse response for the reverb, which is off without one. -/
  response : Option String := none

namespace Rendering

/-- A block of a render: where it begins, how long it is and what happens in it. -/
structure Block where
  position : Nat
  frames : Nat
  midi : List MidiEvent
deriving DecidableEq, Repr

/-- A note in frames. -/
structure Note where
  key : Nat
  velocity : Nat
  release : Nat
  length : Nat
deriving DecidableEq, Repr

/-- What begins the note in the block that begins at a frame: the first block does. -/
def Note.onset (n : Note) (position : Nat) : List MidiEvent :=
  if position = 0 then [MidiEvent.noteOn 0 0 n.key (max 1 (min n.velocity 127))] else []

/-- What releases the note in a block: the one that the release falls into does. -/
def Note.ending (n : Note) (position frames : Nat) : List MidiEvent :=
  if position ≤ n.release && n.release < position + frames then
    [MidiEvent.noteOff (n.release - position) 0 n.key]
  else []

/-- The block of a render that begins at a frame before its end. -/
def Note.block (n : Note) (position : Nat) : Block :=
  let frames := min maxBlock (n.length - position)
  ⟨position, frames, n.onset position ++ n.ending position frames⟩

theorem Note.block_frames_pos (n : Note) {position : Nat} (h : position < n.length) :
    0 < (n.block position).frames :=
  Nat.lt_min.mpr ⟨by decide, Nat.sub_pos_of_lt h⟩

/-- A time in whole frames; a negative one is none. -/
def framesOf (seconds : Float) (sampleRate : Nat) : Nat :=
  let seconds := if 0 < seconds then seconds else 0
  (seconds * Float.ofNat sampleRate).toUInt64.toNat

/-- The note of a request at some rate. -/
def noteOf (r : RenderRequest) (sampleRate : Nat) : Note where
  key := r.key
  velocity := r.velocity
  release := framesOf r.hold sampleRate
  length := framesOf r.length sampleRate

/-- How far the reverb is mixed in. -/
def reverbMix : Float32 := 0.3

abbrev Player := Engine Float32 Float (Array Complex)

/-- Plays one block, and appends what sounds to what sounded before. -/
def play (state : Player × Array Float32) (b : Block) :
    Except HostError (Player × Array Float32) := do
  let (engine, samples) := state
  let request : BlockRequest Float := ⟨b.frames, engine.sampleRate, 120, b.midi, 2 * maxBlock⟩
  let (engine, out) ← engine.process request
  return (engine.collect.1, out.foldl (fun samples x => (samples.push x.left).push x.right) samples)

/-- Plays a note from a frame on: a block, and then from the end of that block on. -/
def playFrom (n : Note) (position : Nat) (state : Player × Array Float32) :
    Except HostError (Player × Array Float32) :=
  if position < n.length then do
    playFrom n (position + (n.block position).frames) (← play state (n.block position))
  else .ok state
termination_by n.length - position
decreasing_by
  have := n.block_frames_pos ‹position < n.length›
  omega

/-- The interleaved samples of a note. -/
def samples (engine : Player) (n : Note) : Except HostError (Array Float32) := do
  return (← playFrom n 0 (engine, #[])).2

/-- An engine with an instrument of a library, and with the impulse response for the reverb. -/
def prepare (files : Files.Tree) (setup : EngineSetup) (library : Library) (r : RenderRequest) :
    Except Fault Player := do
  let decode := decodeFile files false
  let (store, instrument) ← Loading.load decode .empty (fun _ => false) 0 library r.instrument
  let engine ← ((Engine.create setup).setInstrument 0 (some instrument)).mapError .host
  match r.response with
  | none => return engine
  | some name =>
    let (_, sound) ← Loading.loadResponse decode store instrument.sounds.contains library name
    let (engine, _) := engine.setResponse (some sound.buffer)
    let engine := engine.setEnabled .convolution true
    (engine.setParam .convolution 0 reverbMix).mapError .host

end Rendering

end Multisample
