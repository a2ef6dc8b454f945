import Multisample.Script.Value
import Std.Data.TreeMap

/-!
# Tables

A table maps keys to values; nil stands for no entry, and a removed entry keeps
its place with the value nil until storage is laid out anew.  Storage is counted
in slots for the keys from one on and nodes for all others, and grows in powers
of two when no node is left.  The slots also decide which border counts as the
length of a table with gaps.
-/

namespace Multisample.Script

structure Table where
  entries : Std.TreeMap Value Value Value.order := ∅
  metatable : Option Nat := none
  /-- The keys from one up to here have slots. -/
  slots : Nat := 0
  nodes : Nat := 0
  /-- How many nodes are taken. -/
  taken : Nat := 0

instance : Inhabited Table := ⟨{}⟩

namespace Table

/-- What is stored under a key, nil if nothing is. -/
def get (t : Table) (k : Value) : Value :=
  match k.key? with
  | some k => t.entries.getD k .nil
  | none => .nil

def getNat (t : Table) (n : Nat) : Value :=
  t.entries.getD (.ofNat n) .nil

def has (t : Table) (n : Nat) : Bool :=
  !(t.getNat n).isNil

/-- The positive integer that a key is, if it is one. -/
def position? : Value → Option Nat
  | .number (.int n) => if 0 < n then some n.toInt.toNat else none
  | _ => none

/-- The least power of two that is not less than a number. -/
def powerFrom (n : Nat) : Nat :=
  if n ≤ 1 then n else 1 <<< ((n - 1).log2 + 1)

/-- How many positions lie in each range `(2 ^ (i - 1), 2 ^ i]`. -/
def census (positions : List Nat) : Array Nat :=
  positions.foldl (fun bins p => bins.modify (if p ≤ 1 then 0 else (p - 1).log2 + 1) (· + 1))
    (Array.replicate 64 0)

/-- The largest power of two of slots of which more than half are used. -/
def bestSlots (bins : Array Nat) : Nat :=
  let step (best : Nat × Nat) (exponent : Nat) : Nat × Nat :=
    let count := best.2 + bins.getD exponent 0
    (if 1 <<< exponent < 2 * count then 1 <<< exponent else best.1, count)
  ((List.range 40).foldl step (0, 0)).1

/-- Lays out storage anew so that a key more has room. -/
def grow (t : Table) (k : Value) : Table :=
  let entries := t.entries.filter fun _ v => !v.isNil
  let positions := entries.foldl (fun ps k _ => (position? k).toList ++ ps) (position? k).toList
  let slots := bestSlots (census positions)
  let inSlots := (positions.filter (· ≤ slots)).length
  let outside := entries.size + 1 - inSlots
  { t with entries, slots, nodes := powerFrom outside, taken := outside }

/-- Takes storage for a key that is new. -/
def makeRoom (t : Table) (k : Value) : Table :=
  if (position? k).any (· ≤ t.slots) then t
  else if t.taken < t.nodes then { t with taken := t.taken + 1 }
  else t.grow k

/-- Stores a value under a key that can be one; nil only where something was stored before. -/
def set (t : Table) (k v : Value) : Table :=
  if t.entries.contains k then replace t k v
  else if v.isNil then t
  else replace (t.makeRoom k) k v
where
  /-- Stores without looking at the storage. -/
  replace (t : Table) (k v : Value) : Table :=
    match t with
    | ⟨entries, metatable, slots, nodes, taken⟩ => ⟨entries.insert k v, metatable, slots, nodes, taken⟩

/-- The entries in the order of their keys. -/
def toList (t : Table) : List (Value × Value) :=
  t.entries.toList.filter fun entry => !entry.2.isNil

/-- The first entry behind a key, removed ones left out. -/
def entryAfter? (t : Table) : Nat → Value → Option (Value × Value)
  | 0, _ => none
  | fuel + 1, k =>
    match t.entries.getEntryGT? k with
    | some (k, .nil) => entryAfter? t fuel k
    | found => found

/-- Whether a key has a place in the table, if only that of a removed entry. -/
def holds (t : Table) (k : Value) : Bool :=
  t.entries.contains k || (position? k).any (· ≤ t.slots)

def first? (t : Table) : Option (Value × Value) :=
  match t.entries.minEntry? with
  | some (k, .nil) => t.entryAfter? t.entries.size k
  | found => found

/-- The entry behind a key, or the first one behind nil; refused for a key without a place. -/
def next? (t : Table) (k : Value) : Option (Option (Value × Value)) :=
  if k.isNil then some t.first?
  else
    match k.key? with
    | some k => if t.holds k then some (t.entryAfter? t.entries.size k) else none
    | none => none

/-- A border between a present and an absent position. -/
def border (t : Table) : Nat → Nat → Nat → Nat
  | 0, present, _ => present
  | fuel + 1, present, absent =>
    if absent ≤ present + 1 then present
    else
      let middle := (present + absent) / 2
      if t.has middle then border t fuel middle absent else border t fuel present middle

/-- A border above a present position, found by doubling. -/
def borderAbove (t : Table) : Nat → Nat → Nat
  | 0, present => present
  | fuel + 1, present =>
    let next := 2 * present
    if t.has next then borderAbove t fuel next else border t 64 present next

/-- The length: a position that is present while the next one is not. -/
def length (t : Table) : Nat :=
  if 0 < t.slots && !t.has t.slots then
    if 2 ≤ t.slots && t.has (t.slots - 1) then t.slots - 1 else border t 64 0 t.slots
  else if t.nodes = 0 || !t.has (t.slots + 1) then t.slots
  else borderAbove t 62 (max t.slots 1)

/-- The storage that a table takes, in bytes. -/
def bytes (t : Table) : Nat :=
  56 + 16 * t.slots + 40 * t.nodes

end Table

end Multisample.Script
