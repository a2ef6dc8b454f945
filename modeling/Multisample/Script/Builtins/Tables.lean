import Multisample.Script.Builtins.Arguments

/-!
# Functions on tables

Tables are seen as sequences from position one up to their length.  Fields are
read and written as operators do it, so metatables take part.
-/

namespace Multisample.Script.Builtins.Tables

open Act

def getAt (t : Nat) (i : Int64) : Act Value :=
  index (.table t) (.int i) none

def setAt (t : Nat) (i : Int64) (v : Value) : Act Unit :=
  setIndex (.table t) (.int i) v none

def lengthOf (t : Nat) : Act Int64 := do
  match (← Act.length (.table t, none)).toInt? with
  | some n => return n
  | none => blame "object length is not an integer"

/-- Does something for each number of a range, upwards. -/
def forEach (first last : Int64) (visit : Int64 → Act Unit) : Act Unit :=
  let round (i : Int64) : Act (Int64 ⊕ Unit) := do
    if last < i then return .inr ()
    else
      visit i
      return if i == last then .inr () else .inl (i + 1)
  rounds round first

/-- Does something for each number of a range, downwards. -/
def forEachDown (last first : Int64) (visit : Int64 → Act Unit) : Act Unit :=
  let round (i : Int64) : Act (Int64 ⊕ Unit) := do
    if i < first then return .inr ()
    else
      visit i
      return if i == first then .inr () else .inl (i - 1)
  rounds round last

/-- Collects a value for each number of a range; the list is in reverse. -/
def collect {α : Type} (first last : Int64) (visit : Int64 → Act α) : Act (List α) :=
  let round (state : Int64 × List α) : Act ((Int64 × List α) ⊕ List α) := do
    let (i, done) := state
    if last < i then return .inr done
    else
      let a ← visit i
      return if i == last then .inr (a :: done) else .inl (i + 1, a :: done)
  rounds round (first, [])

def insert (arguments : List Value) : Act (List Value) := do
  let t ← tableArgument 1 arguments
  let stop := (← lengthOf t) + 1
  match arguments with
  | [_, v] =>
    setAt t stop v
    return []
  | [_, _, v] =>
    let position ← intArgument 2 arguments
    if stop.toUInt64 ≤ (position - 1).toUInt64 then badArgument 2 "position out of bounds"
    forEachDown stop (position + 1) fun i => do setAt t i (← getAt t (i - 1))
    setAt t position v
    return []
  | _ => blame "wrong number of arguments to 'insert'"

def remove (arguments : List Value) : Act (List Value) := do
  let t ← tableArgument 1 arguments
  let size ← lengthOf t
  let position ← optional 2 arguments size intArgument
  if position != size && size.toUInt64 < (position - 1).toUInt64 then
    badArgument 2 "position out of bounds"
  let v ← getAt t position
  if position < size then
    forEach position (size - 1) fun i => do setAt t i (← getAt t (i + 1))
  setAt t (if position < size then size else position) .nil
  return [v]

def move (arguments : List Value) : Act (List Value) := do
  let source ← tableArgument 1 arguments
  let first ← intArgument 2 arguments
  let last ← intArgument 3 arguments
  let target ← intArgument 4 arguments
  let destination ← if isMissing 5 arguments then pure source else tableArgument 5 arguments
  if first ≤ last then
    if !(0 < first || last < Int64.maxValue + first) then
      badArgument 3 "too many elements to move"
    if Int64.maxValue - (last - first) < target then badArgument 4 "destination wrap around"
    let moveOne (i : Int64) : Act Unit := do setAt destination (target + i) (← getAt source (first + i))
    if last < target || target ≤ first || destination != source then
      forEach 0 (last - first) moveOne
    else forEachDown (last - first) 0 moveOne
  return [.table destination]

def pack (arguments : List Value) : Act (List Value) := do
  let t ← onHeap (·.add { slots := arguments.length, nodes := 1, taken := 0 })
  change (·.mapHeap fun h =>
    arguments.zipIdx.foldl (fun h (v, i) => h.set t (.ofNat (i + 1)) v) h)
  setRaw t (.ofString "n") (.ofNat arguments.length)
  return [.table t]

/-- How many results a function may have. -/
def maxResults : Nat := 1000000

def unpack (arguments : List Value) : Act (List Value) := do
  let v := arguments.headD .nil
  let first ← optional 2 arguments 1 intArgument
  let last ← if isMissing 3 arguments then do
      match (← Act.length (v, none)).toInt? with
      | some n => pure n
      | none => blame "object length is not an integer"
    else intArgument 3 arguments
  if last < first then return []
  else if maxResults ≤ (last.toInt - first.toInt).toNat then blame "too many results to unpack"
  else return (← collect first last fun i => index v (.int i) none).reverse

def concat (arguments : List Value) : Act (List Value) := do
  let t ← tableArgument 1 arguments
  let length ← lengthOf t
  let between ← optional 2 arguments .empty textArgument
  let first ← optional 3 arguments 1 intArgument
  let last ← optional 4 arguments length intArgument
  let pieces ← collect first last fun i => do
    let v ← getAt t i
    match v.toText? with
    | some b => return b
    | none =>
      blame s!"invalid value (at index {i.toInt}) in table for 'concat'"
  let pieces := (pieces.intersperse between).reverse
  let total := pieces.foldl (fun size piece => size + piece.size) 0
  reserve (2 * total)
  allocate (24 + total)
  return [.text (pieces.foldl (· ++ ·) .empty)]

/-! ## Sorting -/

/-- Whether one value is to stand before another. -/
def before (comparison : Value) (a b : Value) : Act Bool :=
  if comparison.isNil then lt a b else return (← callOne comparison [a, b]).isTrue

def swap (t : Nat) (i j : Int64) (a b : Value) : Act Unit := do
  setAt t i b
  setAt t j a

/-- Finds the first position behind `i` whose value is not before the pivot. -/
def scanUp (t : Nat) (comparison pivot : Value) (i limit : Int64) : Act (Int64 × Value) :=
  let round (i : Int64) : Act (Int64 ⊕ (Int64 × Value)) := do
    let v ← getAt t i
    if ← before comparison v pivot then
      if i == limit then blame "invalid order function for sorting"
      else return .inl (i + 1)
    else return .inr (i, v)
  rounds round (i + 1)

/-- Finds the first position below `j` whose value the pivot is not before. -/
def scanDown (t : Nat) (comparison pivot : Value) (j limit : Int64) : Act (Int64 × Value) :=
  let round (j : Int64) : Act (Int64 ⊕ (Int64 × Value)) := do
    let v ← getAt t j
    if ← before comparison pivot v then
      if j < limit then blame "invalid order function for sorting"
      else return .inl (j - 1)
    else return .inr (j, v)
  rounds round (j - 1)

/-- Splits a range around a pivot, which stands just below its end, and gives the pivot's place. -/
def partition (t : Nat) (comparison pivot : Value) (low high : Int64) : Act Int64 :=
  let round (state : Int64 × Int64) : Act ((Int64 × Int64) ⊕ Int64) := do
    let (i, a) ← scanUp t comparison pivot state.1 (high - 1)
    let (j, b) ← scanDown t comparison pivot state.2 i
    if j < i then
      let last ← getAt t (high - 1)
      swap t (high - 1) i last a
      return .inr i
    else
      swap t i j a b
      return .inl (i, j)
  rounds round (low, high - 1)

/-- Puts two values in order, and tells whether they were not. -/
def order (t : Nat) (comparison : Value) (i j : Int64) : Act Bool := do
  let a ← getAt t i
  let b ← getAt t j
  if ← before comparison b a then
    swap t i j a b
    return true
  else return false

/-- Sorts a range as far as a split into two ranges, the smaller one first. -/
def splitRange (t : Nat) (comparison : Value) (low high : Int64) : Act (List (Int64 × Int64)) := do
  let _ ← order t comparison low high
  if high - low == 1 then return []
  else
    let middle := ((low.toUInt64 + high.toUInt64) / 2).toInt64
    if !(← order t comparison low middle) then
      let _ ← order t comparison middle high
    if high - low == 2 then return []
    else
      let pivot ← getAt t middle
      let last ← getAt t (high - 1)
      swap t middle (high - 1) pivot last
      let p ← partition t comparison pivot low high
      return if p - low < high - p then [(low, p - 1), (p + 1, high)]
        else [(p + 1, high), (low, p - 1)]

def sort (arguments : List Value) : Act (List Value) := do
  let t ← tableArgument 1 arguments
  let size ← lengthOf t
  if 1 < size then
    if Int64.ofNat ((1 <<< 31) - 1) ≤ size then badArgument 1 "array too big"
    let comparison := arguments.getD 1 .nil
    match comparison with
    | .nil | .closure .. | .builtin .. => pure ()
    | _ => wrongType 2 arguments "function"
    let round (ranges : List (Int64 × Int64)) : Act (List (Int64 × Int64) ⊕ Unit) := do
      match ranges with
      | [] => return .inr ()
      | (low, high) :: rest =>
        if low < high then return .inl ((← splitRange t comparison low high) ++ rest)
        else return .inl rest
    rounds round [(1, size)]
  return []

def all : List Builtin :=
  [.plain "table.concat" concat, .plain "table.insert" insert, .plain "table.move" move,
    .plain "table.pack" pack, .plain "table.remove" remove, .plain "table.sort" sort,
    .plain "table.unpack" unpack]

end Multisample.Script.Builtins.Tables
