import Multisample.Engine.Session
import Multisample.Settings.DurationText
import Multisample.Settings.Environment
import Multisample.Settings.Yaml
import Multisample.Text.Bytes

/-!
# Engine settings

All settings are optional.  Durations stay texts until they are asked for;
validation reads them once so that later reads cannot fail.
-/

namespace Multisample

/-- What a script may use. -/
structure Quotas where
  bytes : Nat
  time : Duration
deriving DecidableEq, Repr

structure Settings where
  sampleRate? : Option Nat := none
  maxVoices? : Option Nat := none
  attack? : Option String := none
  release? : Option String := none
  nameBytes? : Option Nat := none
  workers? : Option Nat := none
  retireCapacity? : Option Nat := none
  scriptBytes? : Option Nat := none
  scriptTime? : Option String := none
deriving DecidableEq, Repr, Inhabited

namespace Settings

def sampleRate (s : Settings) : Nat :=
  s.sampleRate?.getD 44100

def maxVoices (s : Settings) : Nat :=
  s.maxVoices?.getD 32

/-- The longest name a library may give, in bytes. -/
def nameBytes (s : Settings) : Nat :=
  s.nameBytes?.getD 64

/-- Threads for scripts and decoding: one for each processor, four at most. -/
def workers (s : Settings) (processors : Nat) : Nat :=
  s.workers?.getD (max 1 (min processors 4))

def retireCapacity (s : Settings) : Nat :=
  s.retireCapacity?.getD 1024

def scriptBytes (s : Settings) : Nat :=
  s.scriptBytes?.getD (64 * 1024 * 1024)

/-- Reads a duration text; a fault is told in words. -/
def readDuration (text : String) : Except String Duration :=
  (DurationText.read text).mapError DurationText.Problem.message

/-- The duration that a field holds by a reader of duration texts, or what it is without a text. -/
def durationBy (read : String → Except String Duration) (field : String) (text? : Option String)
    (default : Duration) : Except SettingsError Duration :=
  match text? with
  | none => .ok default
  | some text => (read text).mapError (.invalidDuration field text)

def attack (s : Settings) : Except SettingsError Duration :=
  durationBy readDuration "attack" s.attack? (.ofMillis 2)

def release (s : Settings) : Except SettingsError Duration :=
  durationBy readDuration "release" s.release? (.ofMillis 150)

/-- The limits of scripts by a reader of duration texts. -/
def quotasBy (read : String → Except String Duration) (s : Settings) :
    Except SettingsError Quotas := do
  return ⟨s.scriptBytes, ← durationBy read "script.timeout" s.scriptTime? (.ofMillis 5000)⟩

def quotas (s : Settings) : Except SettingsError Quotas :=
  s.quotasBy readDuration

def withSampleRate (s : Settings) (sampleRate : Nat) : Settings :=
  { s with sampleRate? := some sampleRate }

/-- Overrides the limits of scripts; the time is written in whole milliseconds. -/
def withQuotas (s : Settings) (q : Quotas) : Settings :=
  { s with scriptBytes? := some q.bytes, scriptTime? := some (DurationText.ofMillis q.time) }

def lowestRate : Nat := 8000

def highestRate : Nat := 384000

/-- Checks that a count is not zero. -/
def checkPositive (field : String) (value : Nat) : Except SettingsError Unit :=
  if value = 0 then .error (.invalid field "must be at least 1") else .ok ()

/-- Checks everything; the first fault counts. -/
def validate (s : Settings) : Except SettingsError Unit := do
  if s.sampleRate < lowestRate || highestRate < s.sampleRate then
    throw (.invalid "sample_rate" s!"{s.sampleRate} is outside [{lowestRate}, {highestRate}]")
  checkPositive "max_voices" s.maxVoices
  checkPositive "worker_threads" (s.workers 1)
  checkPositive "retire_capacity" s.retireCapacity
  let _ ← s.attack
  let _ ← s.release
  let _ ← s.quotas

/-! ## Reading -/

/-- An optional value: absent or null, or one that a reader accepts. -/
def optional {α : Type} (read? : Document → Option α) (d : Document) (key : String) :
    Except SettingsError (Option α) :=
  match d.get key with
  | .null => .ok none
  | value =>
    match read? value with
    | some x => .ok (some x)
    | none => .error .load

/-- The part for scripts as a table; it may also be written as the list of its values. -/
def scriptPart (d : Document) : Except SettingsError Document :=
  if d.has "script" then
    match d.get "script" with
    | .table fields => .ok (.table fields)
    | .list (bytes :: time :: _) => .ok (.table [("max_memory_bytes", bytes), ("timeout", time)])
    | _ => .error .load
  else .ok (.table [])

/-- The names of all settings as the environment writes them. -/
def keys : List String :=
  ["sample_rate", "max_voices", "attack", "release", "max_name_bytes", "worker_threads",
    "retire_capacity", "script__max_memory_bytes", "script__timeout"]

/-- Reads a document without validating it; unknown keys are passed over. -/
def ofDocument (d : Document) : Except SettingsError Settings := do
  let count := Document.natural? Document.naturalLimit
  let script ← scriptPart d
  return {
    sampleRate? := ← optional (Document.natural? (1 <<< 32)) d "sample_rate"
    maxVoices? := ← optional count d "max_voices"
    attack? := ← optional Document.string? d "attack"
    release? := ← optional Document.string? d "release"
    nameBytes? := ← optional count d "max_name_bytes"
    workers? := ← optional count d "worker_threads"
    retireCapacity? := ← optional count d "retire_capacity"
    scriptBytes? := ← optional count script "max_memory_bytes"
    scriptTime? := ← optional Document.string? script "timeout" }

/-- Splits a key at its dots; a key that is no chain of names stays whole. -/
def keyPath (key : String) : List String :=
  let parts := (Files.segments (key.toList.map fun c => if c = '.' then '/' else c))
  let isName (part : List Char) : Bool :=
    !part.isEmpty && part.all fun c => c.isAlphanum || c = '_' || c = '-'
  if parts.all isName then parts.map String.ofList else [key]

/-- The settings of a text: a table, whose keys may lead into tables. -/
def readTable (yaml : String) : Except SettingsError Document :=
  match Yaml.read? yaml with
  | some (.table fields) =>
    .ok (fields.foldl
      (fun d (key, value) => Document.overlay (Document.insert value (keyPath key) (.table [])) d)
      (.table []))
  | _ => .error .load

/-- Reads settings and checks them. -/
def checked (d : Document) : Except SettingsError Settings := do
  let s ← ofDocument d
  s.validate
  return s

def ofYaml (yaml : String) : Except SettingsError Settings := do
  checked (← readTable yaml)

/-- The settings of an optional text with those of the environment laid over them. -/
def ofSources (yaml? : Option String) (environment : List (String × String)) :
    Except SettingsError Settings := do
  let below ← match yaml? with
    | some yaml => readTable yaml
    | none => .ok (.table [])
  checked (Document.overlay (Environment.document environment) below)

/-- How names of settings files end. -/
def endings : List String := ["yaml", "yml", "json"]

/-- The settings file that a path stands for; its ending may be left out. -/
def locate? (files : Files.Tree) (path : String) : Option String :=
  if files.isFile path then
    if (Files.ending? path).any endings.contains then some path else none
  else (endings.map fun ending => s!"{path}.{ending}").find? files.isFile

/-- Reads a settings file under the environment; a file that is not there says nothing. -/
def load (files : Files.Tree) (path? : Option String) (environment : List (String × String)) :
    Except SettingsError Settings :=
  let yaml? := do
    let content ← (files.read (← locate? files (← path?))).toOption
    let text := Bytes.display content
    return if text.toList.head? == some '\ufeff' then String.ofList (text.toList.drop 1) else text
  ofSources yaml? environment

/-- What the engine is made with. -/
def engineSetup (s : Settings) : Except SettingsError EngineSetup := do
  return ⟨s.sampleRate, s.maxVoices, ← s.attack, ← s.release, s.retireCapacity⟩

end Settings

end Multisample
