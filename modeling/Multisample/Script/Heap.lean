import Multisample.Script.Table

/-!
# The heap of a script

Tables and the cells of captured variables live in the heap and are named by
their place in it.  The heap counts the bytes it hands out; whether that is too
much is decided when the count has passed the limit.
-/

namespace Multisample.Script

structure Heap where
  tables : Array Table := #[]
  cells : Array Value := #[]
  /-- The next identity of a function. -/
  fresh : Nat := 0
  /-- An upper bound of the bytes in use. -/
  used : Nat := 0
  /-- The bytes that may be in use; zero is no limit. -/
  limit : Nat := 0
deriving Inhabited

namespace Heap

/-- The table of an identity; one that was never handed out is empty. -/
def table (h : Heap) (id : Nat) : Table :=
  h.tables.getD id {}

def get (h : Heap) (id : Nat) (k : Value) : Value :=
  (h.table id).get k

def getString (h : Heap) (id : Nat) (k : String) : Value :=
  h.get id (.ofString k)

def isOver (h : Heap) : Bool :=
  h.limit != 0 && h.limit < h.used

/-- Counts bytes as used. -/
def charge (h : Heap) (bytes : Nat) : Heap :=
  { h with used := h.used + bytes }

/-- Puts a table into the heap and gives its identity. -/
def add (h : Heap) (t : Table) : Heap × Nat :=
  let id := h.tables.size
  match h with
  | ⟨tables, cells, fresh, used, limit⟩ => (⟨tables.push t, cells, fresh, used + t.bytes, limit⟩, id)

def newTable (h : Heap) : Heap × Nat :=
  h.add {}

/-- Changes one table. -/
def modify (h : Heap) (id : Nat) (change : Table → Table) : Heap :=
  match h with
  | ⟨tables, cells, fresh, used, limit⟩ =>
    let before := (tables.getD id {}).bytes
    let tables := tables.modify id change
    let after := (tables.getD id {}).bytes
    ⟨tables, cells, fresh, used + after - before, limit⟩

/-- Stores a value under a key that can be one. -/
def set (h : Heap) (id : Nat) (k v : Value) : Heap :=
  h.modify id (·.set k v)

def setString (h : Heap) (id : Nat) (k : String) (v : Value) : Heap :=
  h.set id (.ofString k) v

/-- Makes a cell for a captured variable. -/
def newCell (h : Heap) (v : Value) : Heap × Nat :=
  let id := h.cells.size
  match h with
  | ⟨tables, cells, fresh, used, limit⟩ => (⟨tables, cells.push v, fresh, used + 40, limit⟩, id)

def cell (h : Heap) (id : Nat) : Value :=
  h.cells.getD id .nil

def setCell (h : Heap) (id : Nat) (v : Value) : Heap :=
  match h with
  | ⟨tables, cells, fresh, used, limit⟩ => ⟨tables, cells.setIfInBounds id v, fresh, used, limit⟩

/-- Makes a function of the script. -/
def newClosure (h : Heap) (f : Function) (cells : Array Nat) : Heap × Value :=
  let id := h.fresh
  ({ h with fresh := id + 1, used := h.used + 32 + 8 * cells.size }, .closure id f cells)

/-- The table that says how a value behaves; only tables have one of their own. -/
def metatable? (h : Heap) (texts : Nat) : Value → Option Nat
  | .table id => (h.table id).metatable
  | .text _ => some texts
  | _ => none

/-! ## Merging tables -/

/-- Why tables were not merged. -/
inductive MergeFault where
  | tooDeep
  | refused
deriving DecidableEq, Repr

/-- Tables nested deeper in a table are not merged. -/
def maxNesting : Nat := 32

/-- Copies a table, with the entries of another one laid over it.  Where both have a table they are
merged in turn; nested tables of either are copied.  `depth` counts the levels that are left. -/
def extend : Nat → Heap → Nat → Option Nat → Except MergeFault (Heap × Nat)
  | 0, _, _, _ => .error .tooDeep
  | depth + 1, h, base, upper => do
    let (h, result) := h.newTable
    if h.isOver then throw .refused
    let copyEntry (h : Heap) (entry : Value × Value) : Except MergeFault Heap := do
      match entry.2 with
      | .table nested =>
        let (h, copy) ← extend depth h nested none
        return h.set result entry.1 (.table copy)
      | v => return h.set result entry.1 v
    let overlayEntry (h : Heap) (entry : Value × Value) : Except MergeFault Heap := do
      match h.get result entry.1, entry.2 with
      | .table existing, .table nested =>
        let (h, merged) ← extend depth h existing (some nested)
        return h.set result entry.1 (.table merged)
      | _, .table nested =>
        let (h, copy) ← extend depth h nested none
        return h.set result entry.1 (.table copy)
      | _, v => return h.set result entry.1 v
    let h ← (h.table base).toList.foldlM copyEntry h
    match upper with
    | none => return (h, result)
    | some upper => return (← (h.table upper).toList.foldlM overlayEntry h, result)

/-- The deep merge of two tables as a new one that shares no table with either. -/
def merge (h : Heap) (base upper : Nat) : Except MergeFault (Heap × Nat) :=
  extend (maxNesting + 1) h base (some upper)

end Heap

end Multisample.Script
