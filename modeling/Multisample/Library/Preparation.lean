import Multisample.Error
import Multisample.Library.KeyMap

/-!
# Preparing a library

What a library leaves out is filled in once its script has run: names are
checked again, an instrument without a waveform shows its first region, the
length of the round robin is counted, and grouped regions get their keys.
-/

namespace Multisample

/-- The first name that an earlier element of the list has too. -/
def firstDuplicate? : List String → List String → Option String
  | _, [] => none
  | seen, name :: rest => if name ∈ seen then some name else firstDuplicate? (name :: seen) rest

namespace Instrument

/-- The waveform shown is the one of the first region unless one is named. -/
def withWaveform (i : Instrument) : Instrument :=
  { i with waveform := i.waveform <|> i.regions.head?.map fun r => r.file.path }

/-- The highest round-robin index of any region, 0 without one. -/
def highestRoundRobin (i : Instrument) : Nat :=
  (i.regions.filterMap fun r => r.trigger.roundRobin).foldl max 0

def withRoundRobin (i : Instrument) : Instrument :=
  { i with maxRoundRobin := i.highestRoundRobin }

def prepare (i : Instrument) : Instrument :=
  KeyMap.apply i.withWaveform.withRoundRobin

end Instrument

namespace Library

def duplicateFault (l : Library) (kind name : String) : Fault :=
  .invalidLibrary l.scriptPath s!"duplicate {kind} name \"{name}\""

def checkNames (l : Library) : Except Fault Unit :=
  match firstDuplicate? [] (l.instruments.map fun i => i.name) with
  | some name => .error (l.duplicateFault "instrument" name)
  | none =>
    match firstDuplicate? [] (l.responses.map fun r => r.name) with
    | some name => .error (l.duplicateFault "impulse response" name)
    | none => .ok ()

def prepare (l : Library) : Except Fault Library := do
  l.checkNames
  return { l with instruments := l.instruments.map Instrument.prepare }

end Library

end Multisample
