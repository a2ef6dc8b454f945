import Multisample.Error
import Multisample.Numeric.Duration
import Multisample.Script.ChunkName
import Multisample.Script.Machine.Run
import Multisample.Script.Parser

/-!
# Evaluating scripts

A script is read, run and asked for one library.  What stops it is told apart:
it cannot be read, it fails, it takes too much memory or time, or it was
cancelled.
-/

namespace Multisample.Script

/-- What a script may use. -/
structure Limits where
  /-- The bytes it may take; zero is no limit. -/
  bytes : Nat := 64 * 1024 * 1024
  time : Duration := .ofMillis 5000
  nameBytes : Nat := 64
deriving DecidableEq, Repr

/-- What there is to run: the text of a script, or an act of the host in its place. -/
inductive Program where
  | script (text : Bytes)
  | act (body : Act (List Value))

/-- A program, where it comes from and how it may run. -/
structure Evaluation where
  program : Program
  path : String
  limits : Limits := {}
  /-- Whether it was cancelled before it began. -/
  cancelled : Bool := false

/-- The world that a script leaves behind, and what it returned. -/
structure Ending where
  world : World
  values : Except ScriptError (List Value)

/-- What has been printed, and the library or what went wrong. -/
structure Evaluated where
  printed : Bytes := .empty
  result : Except ScriptError Library

namespace Evaluation

def filename (e : Evaluation) : String :=
  Files.displayName e.path

def failure (e : Evaluation) (kind : ScriptFailure) (text : String) : ScriptError where
  kind
  filename := e.filename
  text

/-- A failure of the running script, which has a place in it. -/
def runtimeFailure (e : Evaluation) (text : String) : ScriptError :=
  { e.failure .runtime (ChunkName.patched e.filename (ChunkName.withoutStack text)) with
    traceback := some "" }

/-- The world that a script starts in. -/
def world (e : Evaluation) : World :=
  let (heap, globals, texts) := Builtins.start
  { heap := { heap with limit := e.limits.bytes }
    build := { scriptPath := e.path, maxNameBytes := e.limits.nameBytes }
    watchdog := { limit := e.limits.time.nanoseconds }
    cancelled := e.cancelled
    globals
    texts
    seed := Random.seed 1 0 }

/-- What an interrupt means for the evaluation. -/
def interrupted (e : Evaluation) : Interrupt → ScriptError
  | .timeout =>
    e.failure .timeout s!"the script ran longer than {e.limits.time.millis} ms"
  | .cancelled => e.failure .cancelled "evaluation was cancelled"
  | .refused => e.failure .outOfMemory refusedMessage

/-- What an error that nothing caught means; what tripped the watchdog comes first. -/
def classify (e : Evaluation) (world : World) : Raised → ScriptError
  | raised =>
    match world.watchdog.tripped, raised with
    | some i, _ => e.interrupted i
    | none, .refused => e.failure .outOfMemory refusedMessage
    | none, .thrown (.failure message) => e.runtimeFailure message
    | none, .thrown v =>
      let text := Machine.uncaughtText v world (ChunkName.ofFileName e.filename)
      if text == refusedMessage then e.failure .outOfMemory refusedMessage
      else e.runtimeFailure text

/-- The library that a script returned; there must be nothing else. -/
def returned (e : Evaluation) (libraries : List Library) (values : List Value) :
    Except ScriptError Library :=
  let wrong := "the script must return a library created by floe.new_library"
  match values with
  | [.handle (.library index)] =>
    match libraries[index]? with
    | some l => .ok l
    | none => .error (e.failure .unexpected "returned library handle is not known to the host")
  | [.handle _] | [.foreign "userdata"] => .error (e.failure .runtime wrong)
  | [v] => .error (e.failure .runtime s!"{wrong}, got {v.kindName}")
  | values =>
    .error (e.failure .runtime
      s!"the script must return exactly one library, but it returned {values.length} values")

/-- The state that a run starts in, unless the script cannot be read. -/
def start (e : Evaluation) : Except ScriptError Machine.State :=
  let chunk := ChunkName.ofFileName e.filename
  match e.program with
  | .act body => .ok (Machine.startAct body chunk e.world)
  | .script text =>
    match parse text with
    | .ok f => .ok (Machine.start f chunk e.world)
    | .error fault => .error (e.failure .malformed s!"{chunk}:{fault.line}: {fault.message}")

/-- Runs the program to its end. -/
def ending (e : Evaluation) : Ending :=
  match e.start with
  | .error error => ⟨e.world, .error error⟩
  | .ok s =>
    let s := Machine.run Machine.maxSteps s
    ⟨s.world, (Machine.outcome s).mapError (e.classify s.world)⟩

def run (e : Evaluation) : Evaluated :=
  let ⟨world, values⟩ := e.ending
  ⟨world.output.reverse.foldl (· ++ ·) .empty, do e.returned world.build.libraries (← values)⟩

end Evaluation

/-- The library that a script builds. -/
def evaluate (e : Evaluation) : Except ScriptError Library :=
  e.run.result

end Multisample.Script
