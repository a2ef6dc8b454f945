import Multisample.Error
import Multisample.Library.Model

/-!
# Referenced files

A library lists the files it refers to; those that cannot be found are
reported, each path once, and never keep the library from loading.
-/

namespace Multisample

/-- What is wrong with a referenced file. -/
inductive FileProblem where
  | missing
  | unresolvable (error : PathError)
deriving DecidableEq, Repr

def FileProblem.message : FileProblem → String
  | missing => "file does not exist"
  | unresolvable error => error.message

structure FileIssue where
  path : RelativePath
  problem : FileProblem
deriving DecidableEq, Repr

namespace Library

/-- Every path the library refers to, in the order of the library. -/
def references (l : Library) : List RelativePath :=
  l.info.icon.toList ++ l.info.background.toList
    ++ l.instruments.flatMap (fun i => i.regions.map fun r => r.file.path)
    ++ l.responses.map fun r => r.path

/-- What is wrong with one path, if anything: it must lead to a file below the root. -/
def problem? (files : Files.Tree) (root : String) (path : RelativePath) : Option FileProblem :=
  match RelativePath.locate root path.text with
  | .error e => some (.unresolvable e)
  | .ok located => if files.isFile located then none else some .missing

/-- The issues of all paths, each path once, in the order of first mention. -/
def fileIssues (l : Library) (files : Files.Tree) : List FileIssue :=
  l.references.eraseDups.filterMap fun path =>
    (problem? files l.root path).map fun problem => ⟨path, problem⟩

/-- Reads a file below the root. -/
def content (l : Library) (files : Files.Tree) (path : RelativePath) : Except Fault ByteArray :=
  match RelativePath.locate l.root path.text with
  | .error e => .error (.invalidLibrary l.root e.message)
  | .ok located => (files.read located).mapError (.unreadable located)

end Library

end Multisample
