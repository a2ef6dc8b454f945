import Multisample.Playback.SampleStore

/-!
# Loading instruments

Loading decodes the audio of every region up front.  A region whose path, audio
or loop is bad never plays but keeps its place; only cancellation makes the
whole load fail.
-/

namespace Multisample

/-- A region that can sound. -/
structure PlayableRegion (σ : Type) where
  sound : Sound σ
  sampleLoop : Option ResolvedLoop

/-- An instrument with its audio, entry by entry beside its regions; `id` tells two loads apart. -/
structure LoadedInstrument (σ : Type) where
  id : Nat
  library : Library
  instrument : Instrument
  regions : List (Option (PlayableRegion σ))

namespace LoadedInstrument

variable {σ : Type}

def name (i : LoadedInstrument σ) : String :=
  i.instrument.name

def region? (i : LoadedInstrument σ) (index : Nat) : Option (PlayableRegion σ) :=
  (i.regions[index]?).join

def playableCount (i : LoadedInstrument σ) : Nat :=
  (i.regions.filter Option.isSome).length

/-- The bytes of the regions' audio; a buffer counts for each region that has it. -/
def memory (i : LoadedInstrument σ) : Nat :=
  i.regions.foldl (fun total r => total + r.elim 0 fun p => p.sound.buffer.memory) 0

/-- The identities of the buffers the instrument keeps alive. -/
def sounds (i : LoadedInstrument σ) : List Nat :=
  i.regions.filterMap fun r => r.map fun p => p.sound.id

end LoadedInstrument

namespace Loading

variable {σ : Type}

/-- A decoder: what a file at a path sounds like. -/
abbrev Decoder (σ : Type) := String → Except DecodeError (AudioBuffer σ)

/-- The loop of a region against its audio; a loop that does not fit spoils the region. -/
def playable? (file : RegionFile) (sound : Sound σ) : Option (PlayableRegion σ) :=
  match file.sampleLoop with
  | none => some ⟨sound, none⟩
  | some l =>
    match l.resolve sound.buffer.frames with
    | .ok resolved => some ⟨sound, some resolved⟩
    | .error _ => none

/-- Loads one region through the store. -/
def loadRegion (decode : Decoder σ) (root : String) (alive : Nat → Bool) (store : SampleStore σ)
    (file : RegionFile) : Except DecodeError (SampleStore σ × Option (PlayableRegion σ)) :=
  match RelativePath.locate root file.path.text with
  | .error _ => .ok (store, none)
  | .ok path =>
    match store.getOrDecode alive decode path with
    | .ok (store, sound) => .ok (store, playable? file sound)
    | .error (.cancelled path) => .error (.cancelled path)
    | .error _ => .ok (store, none)

/-- Loads regions in order; what has been loaded so far stays alive meanwhile. -/
def loadRegions (decode : Decoder σ) (root : String) :
    (Nat → Bool) → SampleStore σ → List Region →
      Except DecodeError (SampleStore σ × List (Option (PlayableRegion σ)))
  | _, store, [] => .ok (store, [])
  | alive, store, r :: rest =>
    match loadRegion decode root alive store r.file with
    | .error e => .error e
    | .ok (store, loaded) =>
      let held := loaded.map fun p => p.sound.id
      match loadRegions decode root (fun id => alive id || held == some id) store rest with
      | .error e => .error e
      | .ok (store, more) => .ok (store, loaded :: more)

/-- Loads an instrument by name. -/
def load (decode : Decoder σ) (store : SampleStore σ) (alive : Nat → Bool) (id : Nat)
    (library : Library) (name : String) : Except Fault (SampleStore σ × LoadedInstrument σ) :=
  match library.instrument? name with
  | none => .error (.notFound "instrument" name)
  | some instrument =>
    match loadRegions decode library.root alive store instrument.regions with
    | .error e => .error (.decode e)
    | .ok (store, regions) => .ok (store, ⟨id, library, instrument, regions⟩)

/-- Loads the audio of an impulse response by name. -/
def loadResponse (decode : Decoder σ) (store : SampleStore σ) (alive : Nat → Bool)
    (library : Library) (name : String) : Except Fault (SampleStore σ × Sound σ) :=
  match library.response? name with
  | none => .error (.notFound "impulse response" name)
  | some response =>
    match RelativePath.locate library.root response.path.text with
    | .error e => .error (.invalidLibrary library.scriptPath e.message)
    | .ok path => (store.getOrDecode alive decode path).mapError .decode

end Loading

end Multisample
