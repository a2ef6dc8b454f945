import Multisample.Library.Model

/-!
# Automatic key ranges

Regions that name the same group share the keyboard: each reaches halfway to
its neighbours' root keys, so that together they cover every key once.  Of two
regions with one root key the earlier stops just below it and the later starts
there.
-/

namespace Multisample.KeyMap

/-- One past the highest key. -/
def keyCount : Nat := 128

/-- A region of a group: its place in the instrument and its root key. -/
structure Member where
  index : Nat
  root : Nat
deriving DecidableEq, Repr

/-- The group of a region; an empty name is none. -/
def group? (r : Region) : Option String :=
  r.options.autoMapGroup.filter (· ≠ "")

/-- The members of one group in the order of the instrument. -/
def members (regions : List Region) (group : String) : List Member :=
  regions.zipIdx.filterMap fun (r, index) =>
    if group? r = some group then some ⟨index, r.file.rootKey⟩ else none

/-- The members in the order of their root keys; equal keys keep the order of the instrument. -/
def ordered (ms : List Member) : List Member :=
  ms.mergeSort fun a b => a.root ≤ b.root

/-- Where a range with root `root` stops when the next root above is `next`. -/
def boundary (root next : Nat) : Nat :=
  if next = root then root else root + (next - root) / 2 + 1

/-- Hands out the keys from `start` on, member by member; no range is empty, the last ends on top. -/
def tile (start : Nat) : List Member → List (Nat × ValueRange)
  | [] => []
  | [m] => [(m.index, ⟨start, max keyCount (start + 1)⟩)]
  | m :: next :: rest =>
    let stop := max (min (boundary m.root next.root) keyCount) (start + 1)
    (m.index, ⟨start, stop⟩) :: tile (min stop (keyCount - 1)) (next :: rest)

/-- The names of the groups, each once, in the order of the instrument. -/
def groups (regions : List Region) : List String :=
  (regions.filterMap group?).eraseDups

/-- The range of every grouped region, by its place in the instrument. -/
def assignments (regions : List Region) : List (Nat × ValueRange) :=
  (groups regions).flatMap fun g => tile 0 (ordered (members regions g))

def assign (regions : List Region) (index : Nat) (keys : ValueRange) : List Region :=
  regions.modify index fun r => { r with trigger := { r.trigger with keys } }

/-- Gives every region in a group its key range. -/
def apply (i : Instrument) : Instrument :=
  { i with
    regions := (assignments i.regions).foldl (fun rs (index, keys) => assign rs index keys) i.regions }

end Multisample.KeyMap
