import Multisample.Script.Machine.State
import Std.Data.HashSet

/-!
# Memory in use

The heap only counts upwards.  When its count has passed the limit, what can
still be reached is counted anew: every table, function, cell and text once.
-/

namespace Multisample.Script.Machine

/-- What has been reached so far. -/
structure Reached where
  tables : Array Bool
  cells : Array Bool
  closures : Std.HashSet Nat := ∅
  texts : Std.HashSet ByteArray := ∅
  bytes : Nat := 0
  /-- What has been reached but not looked into. -/
  todo : List Value := []

namespace Reached

def addCell (h : Heap) (r : Reached) (id : Nat) : Reached :=
  if r.cells.getD id true then r
  else { r with cells := r.cells.setIfInBounds id true, bytes := r.bytes + 40, todo := h.cell id :: r.todo }

/-- Looks into one value. -/
def visit (h : Heap) (r : Reached) (v : Value) : Reached :=
  match v with
  | .text b =>
    if r.texts.contains b then r
    else { r with texts := r.texts.insert b, bytes := r.bytes + 24 + b.size }
  | .table id =>
    if r.tables.getD id true then r
    else
      let t := h.table id
      let todo := t.entries.foldl (fun todo k v => k :: v :: todo) r.todo
      { r with
        tables := r.tables.setIfInBounds id true
        bytes := r.bytes + t.bytes
        todo := (t.metatable.map Value.table).toList ++ todo }
  | .closure id _ cells =>
    if r.closures.contains id then r
    else
      let r := { r with closures := r.closures.insert id, bytes := r.bytes + 32 + 8 * cells.size }
      cells.foldl (addCell h) r
  | .builtin _ (some id) => { r with todo := .table id :: r.todo }
  | .handle _ => { r with bytes := r.bytes + 56 }
  | .failure message => { r with bytes := r.bytes + 56 + message.utf8ByteSize }
  | _ => r

/-- Looks into everything that is reached. -/
def spread (h : Heap) : Nat → Reached → Reached
  | 0, r => r
  | fuel + 1, r =>
    match r.todo with
    | [] => r
    | v :: todo => spread h fuel (visit h { r with todo } v)

end Reached

def Frame.values (f : Frame) (h : Heap) : List Value :=
  f.cells.foldl (fun vs id => h.cell id :: vs)
    (f.slots.foldl
      (fun vs slot =>
        match slot with
        | .value v => v :: vs
        | .cell id => h.cell id :: vs)
      f.surplus)

def Target.values : Target → List Value
  | place _ => []
  | field object key _ => [object, key]

def Use.values : Use → List Value
  | call callee _ _ _ => [callee]
  | assign targets _ => targets.flatMap Target.values
  | _ => []

def EachLoop.values (l : EachLoop) : List Value :=
  [l.step, l.state, l.control]

/-- The values that a task holds on to. -/
def Task.values (h : Heap) : Task → List Value
  | gather done _ use => done ++ use.values
  | operate _ a _ _ => [a.1]
  | index object _ _ => [object]
  | methodArguments object _ _ _ _ => [object]
  | item filling | entryValue filling _ => [.table filling.table]
  | entry filling key => [.table filling.table, key]
  | targetKey done _ _ _ _ _ => done.flatMap Target.values
  | target done object _ _ _ _ => object :: done.flatMap Target.values
  | store pending _ => pending.flatMap fun (t, v) => v :: t.values
  | loopEach l | eachValues l => l.values
  | back f => f.values h
  | host _ _ _ kept => kept
  | close v => [v]
  | _ => []

def Control.held : Control → List Value
  | value v => [v]
  | values vs => vs
  | host _ _ kept => kept
  | _ => []

/-- The bytes that an interpreter takes before any script runs. -/
def baseBytes : Nat := 24576

/-- The bytes of all that a state can still reach. -/
def State.reachable (s : State) : Nat :=
  let h := s.world.heap
  let held := s.tasks.foldl (fun vs task => task.values h ++ vs) (s.frame.values h)
  let start : Reached := {
    tables := Array.replicate h.tables.size false
    cells := Array.replicate h.cells.size false
    todo := .table s.world.globals :: .table s.world.texts :: (s.control.held ++ held) }
  baseBytes + (start.spread h (1 <<< 60)).bytes

/-- The bytes that the open functions take. -/
def stackBytes (f : Frame) : Nat :=
  16 * f.depth

/-- Whether so many bytes more would pass the limit, by the count as it stands. -/
def isShort (s : State) (bytes : Nat) : Bool :=
  s.world.heap.limit != 0 && s.world.heap.limit < s.world.heap.used + stackBytes s.frame + bytes

/-- More bytes than any memory has. -/
def tooMany : Nat := 1 <<< 37

/-- Makes sure of so many bytes, counting anew if need be; the state is left alone otherwise. -/
def State.provide (s : State) (bytes : Nat) : State × Bool :=
  if tooMany ≤ bytes then (s, false)
  else if isShort s bytes then
    let used := s.reachable
    match s with
    | ⟨control, frame, tasks, world, chunk, nextCheck⟩ =>
      let s : State := ⟨control, frame, tasks, world.mapHeap ({ · with used }), chunk, nextCheck⟩
      let short := isShort s bytes
      (s, !short)
  else (s, true)

end Multisample.Script.Machine
