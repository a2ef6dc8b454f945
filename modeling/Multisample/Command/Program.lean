import Multisample.Command.Help
import Multisample.Command.Report
import Multisample.Script.Example
import Multisample.Settings.Limits

/-!
# The program

A run of the program is a function of its arguments, the files and the
environment.  It exits with 0 when all is well, with 2 when the arguments make
no sense and with 1 otherwise.
-/

namespace Multisample

/-- What a run works on. -/
structure Surroundings where
  files : Files.Tree
  environment : List (String × String) := []

/-- What a run leaves behind. -/
structure Outcome where
  exit : Nat
  printed : Bytes := .empty
  files : Files.Tree
  /-- What went wrong, unless the report says so. -/
  fault : Option Fault := none

namespace Program

/-- What a command prints, whether all is well, and the files afterwards. -/
structure Result where
  printed : Bytes
  clean : Bool
  files : Files.Tree

/-- A fault, and what was printed before it. -/
abbrev Attempt (α : Type) := Except (Bytes × Fault) α

/-- A part that prints nothing. -/
def quiet {α : Type} (x : Except Fault α) : Attempt α :=
  x.mapError (.empty, ·)

def check (files : Files.Tree) (settings : Settings) (path : String) (json : Bool) :
    Attempt Result := do
  let limits ← quiet (settings.limits.mapError .settings)
  let (printed, report) ← quiet (Scan.run files limits false path)
  return ⟨printed ++ (report.text path json).toUTF8, report.isClean, files⟩

/-- The script of a library that is given by its folder or by the script itself. -/
def scriptOf (files : Files.Tree) (path : String) : String :=
  if files.isFolder path then Files.join path [Library.scriptName] else path

/-- Renders a note of a library into a file. -/
def renderInto (files : Files.Tree) (settings : Settings) (library : Library) (r : RenderRequest) :
    Except Fault Files.Tree := do
  let engine ← Rendering.prepare files (← settings.engineSetup.mapError .settings) library r
  let rate := engine.sampleRate
  let write (samples : Array Float32) :=
    (files.write r.output (Wave.encode .float 2 rate samples)).mapError (.unreadable r.output)
  let _ ← write #[]
  write (← (Rendering.samples engine (Rendering.noteOf r rate)).mapError .host)

def render (files : Files.Tree) (settings : Settings) (r : RenderRequest) : Attempt Result := do
  let limits ← quiet (settings.limits.mapError .settings)
  let ⟨printed, result⟩ := Library.read files limits false (scriptOf files r.library)
  let loaded ← result.mapError (printed, ·)
  let files ← (renderInto files settings loaded.library r).mapError (printed, ·)
  return ⟨printed, true, files⟩

def perform (s : Surroundings) (i : Invocation) : Attempt Result := do
  let settings ← quiet ((Settings.load s.files i.settings s.environment).mapError .settings)
  match i.command with
  | .check path json => check s.files settings path json
  | .schema => return ⟨Script.Example.script.toUTF8, true, s.files⟩
  | .render request => render s.files settings request

/-- Runs the program. -/
def run (s : Surroundings) (arguments : List String) : Outcome :=
  match Request.ofArguments arguments with
  | .misuse => ⟨2, .empty, s.files, none⟩
  | .version => ⟨0, Help.version.toUTF8, s.files, none⟩
  | .help topic => ⟨0, (Help.text topic).toUTF8, s.files, none⟩
  | .run invocation =>
    match perform s invocation with
    | .ok r => ⟨if r.clean then 0 else 1, r.printed, r.files, none⟩
    | .error (printed, fault) => ⟨1, printed, s.files, some fault⟩

end Program

end Multisample
