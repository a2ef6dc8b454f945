import Multisample.Error
import Multisample.Playback.VoicePool

/-!
# The sample store

The store remembers which buffer belongs to which file but keeps none alive: a
buffer lives as long as someone else holds it.  So every operation is told
which identities are alive, and no file has two live buffers.
-/

namespace Multisample

/-- What tells files apart: the components of a path, not how they are written. -/
abbrev FileKey := List Files.Component

def fileKey (path : String) : FileKey :=
  Files.components path.toList

structure SampleStore (σ : Type) where
  entries : List (FileKey × Sound σ)
  nextId : Nat

namespace SampleStore

variable {σ : Type}

def empty : SampleStore σ :=
  ⟨[], 0⟩

instance : Inhabited (SampleStore σ) :=
  ⟨empty⟩

/-- The live buffer of a file. -/
def get? (s : SampleStore σ) (alive : Nat → Bool) (path : String) : Option (Sound σ) :=
  (s.entries.lookup (fileKey path)).filter fun sound => alive sound.id

/-- Stores a buffer for a file unless a live one is there; gives back the stored one. -/
def insert (s : SampleStore σ) (alive : Nat → Bool) (path : String) (buffer : AudioBuffer σ) :
    SampleStore σ × Sound σ :=
  match s.get? alive path with
  | some sound => (s, sound)
  | none =>
    let sound := ⟨s.nextId, buffer⟩
    (⟨(fileKey path, sound) :: s.entries.filter (fun e => e.1 != fileKey path), s.nextId + 1⟩, sound)

/-- The live buffer of a file, or else a freshly decoded one. -/
def getOrDecode (s : SampleStore σ) (alive : Nat → Bool)
    (decode : String → Except DecodeError (AudioBuffer σ)) (path : String) :
    Except DecodeError (SampleStore σ × Sound σ) :=
  match s.get? alive path with
  | some sound => .ok (s, sound)
  | none => (decode path).map (s.insert alive path)

/-- Forgets the files whose buffers are gone, and counts them. -/
def purge (s : SampleStore σ) (alive : Nat → Bool) : SampleStore σ × Nat :=
  ({ s with entries := s.entries.filter fun e => alive e.2.id },
    (s.entries.filter fun e => !alive e.2.id).length)

def live (s : SampleStore σ) (alive : Nat → Bool) : List (Sound σ) :=
  (s.entries.map (·.2)).filter fun sound => alive sound.id

def liveCount (s : SampleStore σ) (alive : Nat → Bool) : Nat :=
  (s.live alive).length

/-- The bytes held by live buffers. -/
def memory (s : SampleStore σ) (alive : Nat → Bool) : Nat :=
  (s.live alive).foldl (fun total sound => total + sound.buffer.memory) 0

end SampleStore

end Multisample
