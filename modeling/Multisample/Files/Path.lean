/-!
# Path texts

A path is a text of names between slashes.  Empty pieces and lone dots between
names say nothing; two dots lead to the parent.
-/

namespace Multisample.Files

/-- The pieces of a text between slashes; there is always one more than there are slashes. -/
def segments : List Char → List (List Char)
  | [] => [[]]
  | c :: rest =>
    if c = '/' then [] :: segments rest
    else
      match segments rest with
      | [] => [[c]]
      | s :: more => (c :: s) :: more

/-- What a path is followed by, one after the other. -/
inductive Component where
  /-- A drive in front of the path; a path of this form never has one. -/
  | drive (name : String)
  | root
  | current
  | parent
  | name (name : String)
deriving DecidableEq, Repr

/-- What a path begins with besides its pieces: the root, or a lone dot. -/
def lead (path : List Char) : List Component :=
  if path.head? = some '/' then [.root]
  else if (segments path).head? = some ['.'] then [.current]
  else []

/-- What a piece stands for; empty pieces and lone dots stand for nothing. -/
def component? (piece : List Char) : Option Component :=
  if piece = [] ∨ piece = ['.'] then none
  else if piece = ['.', '.'] then some .parent
  else some (.name (String.ofList piece))

def components (path : List Char) : List Component :=
  lead path ++ (segments path).filterMap component?

/-- The names of a path in order, without empty pieces and lone dots. -/
def names (path : String) : List String :=
  ((segments path.toList).map String.ofList).filter fun s => s != "" && s != "."

def isAbsolute (path : String) : Bool :=
  path.toList.head? == some '/'

/-- Whether a path says that it leads to a folder: it ends in a slash or a lone dot. -/
def namesFolder (path : String) : Bool :=
  match (segments path.toList).getLast? with
  | some last => last == [] || last == ['.']
  | none => false

/-- `root` with each part appended, a slash between unless the text before is empty or ends in one. -/
def join (root : String) (parts : List String) : String :=
  parts.foldl
    (fun path part =>
      if path == "" || path.toList.getLast? == some '/' then path ++ part else path ++ "/" ++ part)
    root

/-- Drops slashes and lone dots at the end; the text comes and goes reversed. -/
def trimTail : List Char → List Char
  | '/' :: rest => if rest.isEmpty then ['/'] else trimTail rest
  | '.' :: '/' :: rest => trimTail ('/' :: rest)
  | cs => cs

/-- The last name of a path; a path that ends in two dots, or names the root, has none. -/
def fileName? (path : String) : Option String :=
  let name := (trimTail path.toList.reverse).takeWhile (· ≠ '/')
  if name == [] || name == ['.'] || name == ['.', '.'] then none
  else some (String.ofList name.reverse)

/-- The path without its last name; the root and the empty path have no parent. -/
def parent? (path : String) : Option String :=
  let trimmed := trimTail path.toList.reverse
  if trimmed == [] || trimmed == ['/'] then none
  else some (String.ofList (trimTail (trimmed.dropWhile (· ≠ '/'))).reverse)

/-- What a file is called in messages. -/
def displayName (path : String) : String :=
  (fileName? path).getD "unreadable file name"

/-- The part of a file's name behind its last dot; a dot in front of the name does not count. -/
def ending? (path : String) : Option String := do
  let name ← fileName? path
  let reversed := name.toList.reverse
  let ending := reversed.takeWhile (· ≠ '.')
  if ending.length + 1 < reversed.length then some (String.ofList ending.reverse) else none

end Multisample.Files
