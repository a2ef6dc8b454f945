import Multisample.Files.Path

/-!
# Relative paths

Libraries name their files by paths relative to their own folder.  A path is
read twice: construction refuses texts that start outside the folder, and
resolution follows what is left step by step and refuses to climb above the root.
-/

namespace Multisample

/-- Why a text does not name a file of the library. -/
inductive PathError where
  | empty
  | absolute (path : String)
  | parentPrefix (path : String)
  | escapes (path : String)
deriving DecidableEq, Repr

namespace PathError

def message : PathError → String
  | empty => "path is empty"
  | absolute path => s!"path \"{path}\" is absolute; paths must be relative to the library folder"
  | parentPrefix path =>
    s!"path \"{path}\" starts with \"..\"; paths must stay inside the library folder"
  | escapes path => s!"path \"{path}\" leaves the library folder"

end PathError

/-- A path text that has passed the construction checks. -/
structure RelativePath where
  text : String
deriving DecidableEq, Repr, Inhabited

namespace RelativePath

/-- A slash or backslash in front, or a drive letter with its colon. -/
def startsAbsolute : List Char → Bool
  | '/' :: _ => true
  | '\\' :: _ => true
  | letter :: ':' :: _ => letter.isAlpha
  | _ => false

/-- Two dots in front, whatever follows them. -/
def startsWithParent : List Char → Bool
  | '.' :: '.' :: _ => true
  | _ => false

def ofString (path : String) : Except PathError RelativePath :=
  if path.toList == [] then .error .empty
  else if startsAbsolute path.toList then .error (.absolute path)
  else if startsWithParent path.toList then .error (.parentPrefix path)
  else .ok ⟨path⟩

/-- A path text with its backslashes read as slashes. -/
def slashed (path : String) : List Char :=
  path.toList.map fun c => if c = '\\' then '/' else c

/-- Follows a path with a stack of names: two dots take one away, and there must be one. -/
def follow (path : String) : List String → List Files.Component → Except PathError (List String)
  | stack, [] => .ok stack.reverse
  | stack, .name name :: rest => follow path (name :: stack) rest
  | stack, .current :: rest => follow path stack rest
  | stack, .parent :: rest =>
    match stack with
    | [] => .error (.escapes path)
    | _ :: below => follow path below rest
  | _, .root :: _ | _, .drive _ :: _ => .error (.absolute path)

/-- The names below the library folder that a path leads to; there is at least one. -/
def resolve (path : String) : Except PathError (List String) := do
  let checked ← ofString path
  match ← follow path [] (Files.components (slashed checked.text)) with
  | [] => .error .empty
  | names => .ok names

/-- The text of the file a path names below `root`. -/
def locate (root path : String) : Except PathError String := do
  return Files.join root (← resolve path)

end RelativePath

end Multisample
