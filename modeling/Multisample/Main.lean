import Multisample.Command.Program

/-!
# The command line

Whatever a command may need is read from disk first; the command then works on
that picture of the disk, and a file that it wrote is written out at the end.
-/

namespace Multisample.Disk

/-- Reads what is at a path with everything below it, but only the contents that are wanted. -/
partial def node? (wanted : String → Bool) (path : String) : IO (Option Files.Node) := do
  let place := (← IO.currentDir) / path
  if ← place.isDir then
    let nodes ← (← place.readDir).toList.filterMapM fun entry => do
      let node ← node? wanted (Files.join path [entry.fileName])
      return node.map (entry.fileName, ·)
    return some (.folder nodes)
  else if ← place.pathExists then
    let content ← if wanted (Files.displayName path) then IO.FS.readBinFile place else pure .empty
    return some (.file content)
  else return none

/-- Puts what is at a path into a picture of the disk. -/
def picture (wanted : String → Bool) (t : Files.Tree) (path : String) : IO Files.Tree := do
  match ← node? wanted path with
  | some node => return { t with root := .insert node t.root (Files.Tree.resolved (t.absolute path)) }
  | none => return t

/-- The folder that a path is in. -/
def folderOf (path : String) : String :=
  match Files.parent? path with
  | none | some "" => "."
  | some folder => folder

/-- Puts a folder without what is in it into a picture of the disk, if there is one. -/
def outline (t : Files.Tree) (path : String) : IO Files.Tree := do
  if ← ((← IO.currentDir) / path).isDir then
    return { t with root := t.root.insertFolder (Files.Tree.resolved (t.absolute path)) }
  else return t

/-- The folder of a library that is given by its folder or by its script. -/
def libraryFolder (path : String) : IO String := do
  return if ← ((← IO.currentDir) / path).isDir then path else folderOf path

/-- Everything on disk that a command may look at. -/
def forCommand (t : Files.Tree) : Command → IO Files.Tree
  | .check path _ => do
    let isScript (name : String) := name == Library.scriptName || name == Files.displayName path
    picture isScript t (← libraryFolder path)
  | .schema => return t
  | .render r => do
    let t ← outline t (folderOf r.output)
    picture (fun _ => true) t (← libraryFolder r.library)

/-- Everything on disk that an invocation may look at. -/
def forInvocation (i : Invocation) : IO Files.Tree := do
  let t : Files.Tree := ⟨.folder [], Files.names (← IO.currentDir).toString⟩
  let t ← forCommand t i.command
  match i.settings with
  | none => return t
  | some path =>
    let paths := path :: Settings.endings.map fun ending => s!"{path}.{ending}"
    paths.foldlM (picture fun _ => true) t

/-- The variables that settings are read from. -/
def environment : IO (List (String × String)) := do
  let names := Settings.keys.map fun key => "FLOE_" ++ key.toUpper
  names.filterMapM fun name => return (← IO.getEnv name).map (name, ·)

/-- Writes out the file that a command made. -/
def save (files : Files.Tree) : Command → IO Unit
  | .render r =>
    match files.read r.output with
    | .ok content => IO.FS.writeBinFile r.output content
    | .error _ => return
  | _ => return

end Multisample.Disk

open Multisample in
def main (arguments : List String) : IO UInt32 := do
  let invocation? := match Request.ofArguments arguments with
    | .run i => some i
    | _ => none
  let files ← match invocation? with
    | some i => Disk.forInvocation i
    | none => pure ⟨.folder [], []⟩
  let outcome := Program.run ⟨files, ← Disk.environment⟩ arguments
  (← IO.getStdout).write outcome.printed
  if let some fault := outcome.fault then IO.eprintln s!"Error: {fault.message}"
  if let (some i, 0) := (invocation?, outcome.exit) then Disk.save outcome.files i.command
  return outcome.exit.toUInt32
