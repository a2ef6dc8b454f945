import Multisample.Library.RelativePath
import Multisample.Library.ValueRange

/-!
# The library model

A library is an ordered list of instruments and an ordered list of impulse
responses, each with a name of its own.  An instrument is an ordered list of
regions: an audio file, when it sounds, and how it blends with its neighbours.
-/

namespace Multisample

/-- Loop points as a library states them; a negative index counts from the end, -1 is the length. -/
structure SampleLoop where
  start : Int
  stop : Int
  crossfade : Nat := 0
  pingPong : Bool := false
deriving DecidableEq, Repr, Inhabited

/-- The event that starts a region. -/
inductive TriggerEvent where
  | noteOn
  | noteOff
deriving DecidableEq, Repr, Inhabited

namespace TriggerEvent

def text : TriggerEvent → String
  | noteOn => "note_on"
  | noteOff => "note_off"

end TriggerEvent

/-- The audio of a region and the key it was recorded at. -/
structure RegionFile where
  path : RelativePath := ⟨""⟩
  rootKey : Nat := 60
  sampleLoop : Option SampleLoop := none
deriving DecidableEq, Repr, Inhabited

/-- When a region sounds; ranges of keys and of percent velocities. -/
structure Trigger where
  event : TriggerEvent := .noteOn
  keys : ValueRange := ⟨60, 64⟩
  velocities : ValueRange := ⟨0, 100⟩
  roundRobin : Option Nat := none
deriving DecidableEq, Repr, Inhabited

/-- How a region blends with its neighbours and finds its keys. -/
structure RegionOptions where
  timbre : Option ValueRange := none
  autoMapGroup : Option String := none
  feather : Bool := false
deriving DecidableEq, Repr, Inhabited

structure Region where
  file : RegionFile := {}
  trigger : Trigger := {}
  options : RegionOptions := {}
deriving DecidableEq, Repr, Inhabited

structure Instrument where
  name : String := ""
  folders : Option String := none
  description : Option String := none
  /-- Sorted by code points, each once. -/
  tags : List String := []
  waveform : Option RelativePath := none
  regions : List Region := []
  maxRoundRobin : Nat := 0
deriving DecidableEq, Repr, Inhabited

structure ImpulseResponse where
  name : String := ""
  path : RelativePath := ⟨""⟩
deriving DecidableEq, Repr, Inhabited

structure LibraryInfo where
  name : String := ""
  tagline : String := ""
  author : String := ""
  minorVersion : Nat := 1
  url : Option String := none
  description : Option String := none
  icon : Option RelativePath := none
  background : Option RelativePath := none
deriving DecidableEq, Repr, Inhabited

/-- Two libraries are the same one when author and name agree. -/
structure LibraryId where
  author : String
  name : String
deriving DecidableEq, Repr

def LibraryId.text (id : LibraryId) : String :=
  s!"{id.author} - {id.name}"

/-- A name that is taken already, and what kind of thing has it. -/
structure DuplicateName where
  kind : String
  name : String
deriving DecidableEq, Repr

def DuplicateName.message (e : DuplicateName) : String :=
  s!"{e.kind} name \"{e.name}\" is already used in this library"

structure Library where
  info : LibraryInfo
  scriptPath : String
  instruments : List Instrument := []
  responses : List ImpulseResponse := []
deriving DecidableEq, Repr

namespace Instrument

/-- Each text once, in the order of code points. -/
def sortedTags (tags : List String) : List String :=
  ((tags.mergeSort fun a b => decide (a ≤ b)).foldr
    (fun tag kept => if kept.head? = some tag then kept else tag :: kept) [])

end Instrument

namespace Library

/-- The folder the script lives in; all paths of the library are relative to it. -/
def root (l : Library) : String :=
  (Files.parent? l.scriptPath).getD ""

def id (l : Library) : LibraryId :=
  ⟨l.info.author, l.info.name⟩

def instrument? (l : Library) (name : String) : Option Instrument :=
  l.instruments.find? fun i => i.name == name

def instrumentIndex? (l : Library) (name : String) : Option Nat :=
  l.instruments.findIdx? fun i => i.name == name

def response? (l : Library) (name : String) : Option ImpulseResponse :=
  l.responses.find? fun r => r.name == name

/-- Adds an instrument at the end and gives its index; a name that is taken is refused. -/
def addInstrument (l : Library) (i : Instrument) : Except DuplicateName (Library × Nat) :=
  if (l.instrument? i.name).isSome then .error ⟨"instrument", i.name⟩
  else .ok ({ l with instruments := l.instruments ++ [i] }, l.instruments.length)

/-- Adds an impulse response at the end and gives its index; a name that is taken is refused. -/
def addResponse (l : Library) (r : ImpulseResponse) : Except DuplicateName (Library × Nat) :=
  if (l.response? r.name).isSome then .error ⟨"impulse response", r.name⟩
  else .ok ({ l with responses := l.responses ++ [r] }, l.responses.length)

/-- Adds a region at the end of one instrument; there is nothing to add it to past the last. -/
def addRegion? (l : Library) (index : Nat) (r : Region) : Option Library := do
  let i ← l.instruments[index]?
  return { l with instruments := l.instruments.set index { i with regions := i.regions ++ [r] } }

end Library

end Multisample
