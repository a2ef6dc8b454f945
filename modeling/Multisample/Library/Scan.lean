import Multisample.Library.Reading

/-!
# Scanning folders

A scan reads every library below a folder.  Hidden folders are passed over, a
failed library leaves the others alone, and of libraries with one identity the
first in the order of paths counts.
-/

namespace Multisample

/-- A script whose library could not be had. -/
structure ScanFailure where
  path : String
  fault : Fault
deriving DecidableEq, Repr

/-- Everything that a scan found, in the order of paths. -/
structure ScanReport where
  libraries : List LoadedLibrary := []
  failures : List ScanFailure := []
deriving DecidableEq, Repr

namespace ScanReport

def isClean (r : ScanReport) : Bool :=
  r.failures.isEmpty && r.libraries.all fun l => l.issues.isEmpty

/-- The fault of a library whose identity an earlier one has. -/
def alreadyLoaded (path : String) (id : LibraryId) (first : String) : Fault :=
  .invalidLibrary path s!"library \"{id.text}\" is already loaded from {first}"

/-- Sorts the outcomes of some scripts; `seen` has the identities so far and where they are from. -/
def gather (seen : List (LibraryId × String)) :
    List (String × Except Fault LoadedLibrary) → ScanReport
  | [] => {}
  | (path, .error fault) :: rest =>
    let r := gather seen rest
    { r with failures := ⟨path, fault⟩ :: r.failures }
  | (path, .ok loaded) :: rest =>
    let id := loaded.library.id
    match seen.lookup id with
    | some first =>
      let r := gather seen rest
      { r with failures := ⟨path, alreadyLoaded path id first⟩ :: r.failures }
    | none =>
      let r := gather ((id, path) :: seen) rest
      { r with libraries := loaded :: r.libraries }

/-- What the outcomes of some scripts, in the order of their paths, amount to. -/
def ofOutcomes (outcomes : List (String × Except Fault LoadedLibrary)) : ScanReport :=
  gather [] outcomes

end ScanReport

namespace Scan

/-- Folders whose name starts with a dot are hidden. -/
def isHidden (name : String) : Bool :=
  name.toList.head? == some '.'

/-- The scripts below a folder with these entries, each as the names that lead to it. -/
def scriptsIn : List (String × Files.Node) → List (List String)
  | [] => []
  | (name, .file _) :: rest =>
    (if name = Library.scriptName then [[name]] else []) ++ scriptsIn rest
  | (name, .folder entries) :: rest =>
    (if isHidden name then [] else (scriptsIn entries).map (name :: ·)) ++ scriptsIn rest

/-- Whether a path comes before another, name by name, or is the same. -/
def pathLe : List String → List String → Bool
  | [], _ => true
  | _ :: _, [] => false
  | a :: as, b :: bs => if a = b then pathLe as bs else a < b

/-- The scripts below a folder in the order of their paths; a path that is a file is the only one. -/
def scripts (files : Files.Tree) (path : String) : Except Fault (List String) :=
  if files.isFile path then .ok [path]
  else
    match files.list path with
    | .error fault => .error (.unreadable path fault)
    | .ok entries => .ok (((scriptsIn entries).mergeSort pathLe).map (Files.join path))

/-- Reads scripts one after the other: what all of them printed, and the outcome of each. -/
def readAll (files : Files.Tree) (limits : Script.Limits) (cancelled : Bool)
    (scripts : List String) : Bytes × List (String × Except Fault LoadedLibrary) :=
  let readings := scripts.map fun path => (path, Library.read files limits cancelled path)
  (readings.foldl (fun printed r => printed ++ r.2.printed) .empty,
    readings.map fun r => (r.1, r.2.result))

/-- Reads every library below a path; also gives what the scripts printed. -/
def run (files : Files.Tree) (limits : Script.Limits) (cancelled : Bool) (path : String) :
    Except Fault (Bytes × ScanReport) := do
  let (printed, outcomes) := readAll files limits cancelled (← scripts files path)
  return (printed, .ofOutcomes outcomes)

end Scan

end Multisample
