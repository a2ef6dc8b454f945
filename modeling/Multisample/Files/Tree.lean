import Multisample.Files.Path

/-!
# Folder trees

Everything the library reads from disk is a finite tree of folders and files
without links, and all names in it are texts.  Paths are followed name by name,
two dots back up again.
-/

namespace Multisample.Files

/-- Where no name comes twice, looking one up finds whatever is listed under it. -/
theorem lookup_eq_some_iff_mem {α β : Type} [BEq α] [LawfulBEq α]
    {entries : List (α × β)} (h : (entries.map fun e => e.1).Nodup) {name : α} {x : β} :
    entries.lookup name = some x ↔ (name, x) ∈ entries := by
  rw [List.lookup_eq_some_iff]
  constructor
  · rintro ⟨before, after, rfl, -⟩
    simp
  · intro hmem
    obtain ⟨before, after, rfl⟩ := List.append_of_mem hmem
    refine ⟨before, after, rfl, fun e he => bne_iff_ne.mpr fun heq => ?_⟩
    rw [List.map_append, List.nodup_append] at h
    exact h.2.2 e.1 (List.mem_map_of_mem he) name (by simp) heq.symm

/-- A file with its bytes, or a folder with what it holds, names in any order. -/
inductive Node where
  | file (content : ByteArray)
  | folder (entries : List (String × Node))
deriving Inhabited

/-- Why a path could not be opened or read. -/
inductive Fault where
  | notFound
  | notAFolder
  | isAFolder
deriving DecidableEq, Repr

def Fault.message : Fault → String
  | notFound => "No such file or directory (os error 2)"
  | notAFolder => "Not a directory (os error 20)"
  | isAFolder => "Is a directory (os error 21)"

namespace Node

def isFile : Node → Bool
  | file _ => true
  | folder _ => false

def isFolder (n : Node) : Bool :=
  !n.isFile

def entries : Node → List (String × Node)
  | file _ => []
  | folder entries => entries

def child? (n : Node) (name : String) : Option Node :=
  n.entries.lookup name

/-- Follows names from the innermost of the folders passed so far. -/
def follow : List Node → List String → Except Fault Node
  | [], _ => .error .notFound
  | node :: _, [] => .ok node
  | node :: above, name :: rest =>
    if node.isFile then .error .notAFolder
    else if name = ".." then follow (if above.isEmpty then [node] else above) rest
    else
      match node.child? name with
      | none => .error .notFound
      | some inner => follow (inner :: node :: above) rest

/-- Puts a node at a chain of names, making the folders on the way. -/
def insert (node : Node) : Node → List String → Node
  | _, [] => node
  | n, name :: rest =>
    let inner := insert node ((n.child? name).getD (folder [])) rest
    folder (n.entries.filter (fun e => e.1 != name) ++ [(name, inner)])

def insertFile (content : ByteArray) (n : Node) (names : List String) : Node :=
  insert (file content) n names

/-- Makes a chain of folders unless it is there. -/
def insertFolder : Node → List String → Node
  | n, [] => n
  | n, name :: rest =>
    let inner := insertFolder ((n.child? name).getD (folder [])) rest
    folder (n.entries.filter (fun e => e.1 != name) ++ [(name, inner)])

end Node

/-- All files, and the folder that relative paths start from. -/
structure Tree where
  root : Node
  cwd : List String := []
deriving Inhabited

namespace Tree

/-- The names from the root that a path stands for. -/
def absolute (t : Tree) (path : String) : List String :=
  if isAbsolute path then names path else t.cwd ++ names path

def find (t : Tree) (path : String) : Except Fault Node := do
  if path == "" then throw .notFound
  let node ← Node.follow [t.root] (t.absolute path)
  if node.isFile && namesFolder path then throw .notAFolder else return node

def isFile (t : Tree) (path : String) : Bool :=
  match t.find path with
  | .ok node => node.isFile
  | .error _ => false

def isFolder (t : Tree) (path : String) : Bool :=
  match t.find path with
  | .ok node => node.isFolder
  | .error _ => false

def read (t : Tree) (path : String) : Except Fault ByteArray := do
  match ← t.find path with
  | .file content => return content
  | .folder _ => throw .isAFolder

/-- What a folder holds. -/
def list (t : Tree) (path : String) : Except Fault (List (String × Node)) := do
  match ← t.find path with
  | .folder entries => return entries
  | .file _ => throw .notAFolder

/-- The names that are left when two dots have led back up. -/
def resolved (names : List String) : List String :=
  names.foldl (fun above name => if name = ".." then above.dropLast else above ++ [name]) []

/-- Creates or replaces a file; its folder must be there. -/
def write (t : Tree) (path : String) (content : ByteArray) : Except Fault Tree := do
  if path == "" then throw .notFound
  let names := t.absolute path
  match ← Node.follow [t.root] names.dropLast with
  | .file _ => throw .notAFolder
  | .folder entries =>
    let name := names.getLastD ".."
    if name = ".." || namesFolder path || ((entries.lookup name).map Node.isFolder).getD false then
      throw .isAFolder
    else return { t with root := t.root.insertFile content (resolved names) }

end Tree

end Multisample.Files
