import Multisample.Files.Tree
import Multisample.Library.RelativePath
import Multisample.Text.Quoted

/-!
# Errors

Each error is a cause with the facts about it; its wording is in one place.
Every fault of the library has a stable code: a category and a number.
-/

namespace Multisample

/-- What the audio thread reports to its host. -/
inductive HostError where
  | blockTooLarge (frames limit : Nat)
  | outputTooSmall (needed got : Nat)
  | noSuchLayer (layer : Nat)
  | invalidEffectOrder
  | noSuchParam (index : Nat)
  | rateMismatch (expected got : Nat)
deriving DecidableEq, Repr

def HostError.message : HostError → String
  | blockTooLarge frames limit => s!"block of {frames} frames exceeds the maximum of {limit}"
  | outputTooSmall needed got => s!"output buffer holds {got} samples but {needed} are required"
  | noSuchLayer layer => s!"layer index {layer} is out of range"
  | invalidEffectOrder => "effect order is not a permutation of all effects"
  | noSuchParam index => s!"parameter {index} does not exist for this effect"
  | rateMismatch expected got =>
    s!"block sample rate {got} Hz does not match the engine rate of {expected} Hz"

/-- Why a file could not be decoded. -/
inductive DecodeError where
  | cannotOpen (path : String) (fault : Files.Fault)
  | format (path : String)
  | empty (path : String)
  | cancelled (path : String)
deriving DecidableEq, Repr

def DecodeError.message : DecodeError → String
  | cannotOpen path fault => s!"cannot open {path}: {fault.message}"
  | format path => s!"cannot decode {path}: unsupported format"
  | empty path => s!"{path} contains no audio"
  | cancelled path => s!"decoding {path} was cancelled"

/-- What is wrong with the settings. -/
inductive SettingsError where
  /-- The document cannot be read or does not have the right shape. -/
  | load
  | invalidDuration (field value reason : String)
  | invalid (field reason : String)
deriving DecidableEq, Repr

def SettingsError.message : SettingsError → String
  | load => "Config load/parse error"
  | invalidDuration field value reason =>
    "Invalid duration " ++ Text.quoted value ++ s!" for {field}: {reason}"
  | invalid field reason => s!"Invalid value for {field}: {reason}"

/-- How a script failed. -/
inductive ScriptFailure where
  | malformed
  | runtime
  | outOfMemory
  | timeout
  | unexpected
  | cancelled
deriving DecidableEq, Repr

namespace ScriptFailure

def text : ScriptFailure → String
  | malformed => "syntax error"
  | runtime => "runtime error"
  | outOfMemory => "memory limit exceeded"
  | timeout => "time limit exceeded"
  | unexpected => "unexpected error"
  | cancelled => "cancelled"

def number : ScriptFailure → Nat
  | malformed => 1
  | runtime => 2
  | outOfMemory => 3
  | timeout => 4
  | unexpected => 5
  | cancelled => 6

end ScriptFailure

/-- A failed script; it is called by its file name. -/
structure ScriptError where
  kind : ScriptFailure
  filename : String
  text : String
  /-- Where the script was when it failed, if the failure has a place. -/
  traceback : Option String := none
deriving DecidableEq, Repr

def ScriptError.message (e : ScriptError) : String :=
  s!"{e.kind.text} in {e.filename}: {e.text}"

/-- Everything that can go wrong. -/
inductive Fault where
  | notFound (what name : String)
  | invalidLibrary (path text : String)
  | versionTooOld (library : String) (declared supported : Nat)
  | host (error : HostError)
  | unreadable (path : String) (fault : Files.Fault)
  | script (error : ScriptError)
  | decode (error : DecodeError)
  | settings (error : SettingsError)
deriving DecidableEq, Repr

namespace Fault

/-- The category and number of a fault. -/
def code : Fault → String
  | notFound .. => "CM-1"
  | invalidLibrary .. => "CM-2"
  | versionTooOld .. => "CM-3"
  | host _ => "CM-4"
  | unreadable .. => "CM-5"
  | settings _ => "CM-6"
  | script e => s!"LUA-{e.kind.number}"
  | decode _ => "AUD-1"

def message : Fault → String
  | notFound what name => s!"{what} not found: {name}"
  | invalidLibrary path text => s!"invalid library {path}: {text}"
  | versionTooOld library declared supported =>
    s!"library {library} requires minor version {declared}; " ++
      s!"this build supports up to {supported}"
  | host e => s!"host error: {e.message}"
  | unreadable path fault => s!"I/O error on {path}: {fault.message}"
  | script e => e.message
  | decode e => e.message
  | settings e => e.message

end Fault

end Multisample
