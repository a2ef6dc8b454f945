import Multisample.Library.Preparation
import Multisample.Library.References
import Multisample.Script.Evaluation

/-!
# Reading libraries

A library is read by running its script.  One that asks for a newer version is
refused, what the script left out is filled in, and the files it refers to are
looked for.
-/

namespace Multisample

/-- A library and what is wrong with the files it refers to. -/
structure LoadedLibrary where
  library : Library
  issues : List FileIssue := []
deriving DecidableEq, Repr

/-- What a script printed, and its library or what went wrong. -/
structure Reading where
  printed : Bytes := .empty
  result : Except Fault LoadedLibrary

namespace Library

/-- The name of the scripts that make libraries. -/
def scriptName : String := "floe.lua"

/-- The newest version of libraries that is understood. -/
def newestVersion : Nat := 1

/-- Why a script cannot be read. -/
def unreadable (path : String) : Files.Fault → Fault
  | .notFound => .notFound "library script" path
  | fault => .unreadable path fault

/-- Checks and completes a library that a script has made. -/
def accept (l : Library) (files : Files.Tree) : Except Fault LoadedLibrary := do
  if newestVersion < l.info.minorVersion then
    throw (.versionTooOld l.id.text l.info.minorVersion newestVersion)
  let l ← l.prepare
  return ⟨l, l.fileIssues files⟩

/-- Reads the library of a script. -/
def read (files : Files.Tree) (limits : Script.Limits) (cancelled : Bool) (path : String) :
    Reading :=
  match files.read path with
  | .error fault => ⟨.empty, .error (unreadable path fault)⟩
  | .ok content =>
    let ⟨printed, result⟩ := Script.Evaluation.run ⟨.script content, path, limits, cancelled⟩
    ⟨printed, do (← result.mapError .script).accept files⟩

end Library

end Multisample
