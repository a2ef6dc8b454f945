import Multisample.Script.Builtins

/-!
# The interpreter's state

A script runs step by step.  A state has what is being done, the variables of
the running function, and a stack of what is left to do, innermost first.
Calls, loops and blocks are entries of that stack, so a script's depth never
becomes the host's.
-/

namespace Multisample.Script.Machine

/-- A local variable; one that a function has captured lives in a cell. -/
inductive Slot where
  | value (v : Value)
  | cell (id : Nat)
deriving Inhabited

/-- The running function's variables. -/
structure Frame where
  slots : Array Slot := #[]
  cells : Array Nat := #[]
  /-- The arguments behind the parameters. -/
  surplus : List Value := []
  /-- The line of the last operation that can fail. -/
  line : Nat := 0
  /-- The slots that all open functions take. -/
  depth : Nat := 0
  /-- How many host functions and operators are calling back. -/
  nesting : Nat := 0
deriving Inhabited

/-- Where an assignment stores. -/
inductive Target where
  | place (p : Place)
  | field (object key : Value) (origin : Option Origin)
deriving Inhabited

/-- The numbers a counting loop still goes through. -/
inductive Counter where
  | ints (next step : Int64) (left : Nat)
  | floats (next step limit : Float)
deriving Inhabited

/-- How control leaves what is being done. -/
inductive Signal where
  /-- Out of the innermost loop. -/
  | leave
  | jump (label : String)
  | give (values : List Value)
  | raise (e : Raised)
deriving Inhabited

/-- What a row of values is for. -/
inductive Use where
  | call (callee : Value) (origin : Option Origin) (line : Nat) (last : Bool)
  | give
  | declare (names : List Declared)
  | assign (targets : List Target) (line : Nat)
  | loopCount (slot : Nat) (body : List Stmt) (line : Nat)
  | loopEach (slots : List Nat) (body : List Stmt) (line : Nat)
deriving Inhabited

/-- A loop over what a function gives, with its state. -/
structure EachLoop where
  step : Value
  state : Value
  control : Value
  slots : List Nat
  body : List Stmt
  line : Nat
deriving Inhabited

/-- The rest of a table that is being made. -/
structure Filling where
  table : Nat
  todo : List Field
  /-- The position of the next item. -/
  next : Nat
deriving Inhabited

/-- What is left to do with a value, or when a statement is done. -/
inductive Task where
  /-- The rest of a block; all of it is kept for jumps. -/
  | block (all rest : List Stmt)
  | gather (done : List Value) (todo : List Expr) (use : Use)
  | operandRight (op : BinaryOp) (b : Expr) (origin : Option Origin) (line : Nat)
  | operate (op : BinaryOp) (a : Value × Option Origin) (origin : Option Origin) (line : Nat)
  | operateOne (op : UnaryOp) (origin : Option Origin) (line : Nat)
  | both (b : Expr)
  | either (b : Expr)
  | single
  | indexKey (key : Expr) (origin : Option Origin) (line : Nat)
  | index (object : Value) (origin : Option Origin) (line : Nat)
  | arguments (es : List Expr) (origin : Option Origin) (line : Nat) (last : Bool)
  | method (name : Bytes) (es : List Expr) (origin : Option Origin) (line : Nat) (last : Bool)
  | methodArguments (object : Value) (name : Bytes) (es : List Expr) (line : Nat) (last : Bool)
  | item (filling : Filling)
  | entryValue (filling : Filling) (value : Expr)
  | entry (filling : Filling) (key : Value)
  | targetKey (done : List Target) (key : Expr) (todo values : List Expr) (line : Nat)
      (origin : Option Origin)
  | target (done : List Target) (object : Value) (todo values : List Expr) (line : Nat)
      (origin : Option Origin)
  | store (pending : List (Target × Value)) (line : Nat)
  | choose (body : List Stmt) (arms : List Arm) (otherwise : List Stmt)
  | loopWhile (condition : Expr) (body : List Stmt)
  | testWhile (condition : Expr) (body : List Stmt)
  | loopUntil (body : List Stmt) (condition : Expr)
  | testUntil (body : List Stmt) (condition : Expr)
  | loopCount (slot : Nat) (counter : Counter) (body : List Stmt)
  | loopEach (loop : EachLoop)
  | eachValues (loop : EachLoop)
  /-- A call statement drops its values. -/
  | drop
  /-- The end of a function; its caller goes on with the frame it had. -/
  | back (frame : Frame)
  /-- An act of the host that waits for a call; `levels` counts on the call stack. -/
  | host (next : Except Raised (List Value) → World → Step (List Value)) (nesting levels : Nat)
      (kept : List Value)
  /-- A variable that is to be closed. -/
  | close (v : Value)
  /-- Goes on after a variable was closed. -/
  | closed (signal : Option Signal)

/-- What is being done. -/
inductive Control where
  | eval (e : Expr)
  | value (v : Value)
  | values (vs : List Value)
  /-- The statement before is done. -/
  | proceed
  | host (next : World → Step (List Value)) (levels : Nat) (kept : List Value)
  | halt (outcome : Except Raised (List Value))

structure State where
  control : Control
  frame : Frame
  tasks : List Task
  world : World
  /-- How scripts call themselves in messages. -/
  chunk : String
  /-- The number of steps at which the watchdog is looked at next. -/
  nextCheck : Nat := 0

/-! ## Variables -/

namespace Frame

def read (f : Frame) (h : Heap) : Place → Value
  | .own i =>
    match f.slots[i]? with
    | some (.value v) => v
    | some (.cell id) => h.cell id
    | none => .nil
  | .captured i => h.cell (f.cells.getD i 0)

/-- Gives a local variable its first value. -/
def declare (f : Frame) (slot : Nat) (v : Value) : Frame :=
  match f with
  | ⟨slots, cells, surplus, line, depth, nesting⟩ =>
    ⟨slots.setIfInBounds slot (.value v), cells, surplus, line, depth, nesting⟩

def setLine (f : Frame) (line : Nat) : Frame :=
  match f with
  | ⟨slots, cells, surplus, _, depth, nesting⟩ => ⟨slots, cells, surplus, line, depth, nesting⟩

/-- The cell of a variable that is being captured; from now on the variable lives there. -/
def capture (f : Frame) (h : Heap) : Place → Frame × Heap × Nat
  | .captured i => (f, h, f.cells.getD i 0)
  | .own i =>
    match f.slots[i]? with
    | some (.cell id) => (f, h, id)
    | some (.value v) =>
      let (h, id) := h.newCell v
      ({ f with slots := f.slots.setIfInBounds i (.cell id) }, h, id)
    | none =>
      let (h, id) := h.newCell .nil
      (f, h, id)

def captureAll (f : Frame) (h : Heap) (places : List Place) : Frame × Heap × Array Nat :=
  places.foldl
    (fun (f, h, cells) place =>
      let (f, h, id) := f.capture h place
      (f, h, cells.push id))
    (f, h, #[])

end Frame

/-- The value of an expression that needs no work. -/
def quick? (f : Frame) (h : Heap) : Expr → Option Value
  | .nil => some .nil
  | .bool b => some (.bool b)
  | .number n => some (.number n)
  | .text b => some (.text b)
  | .var place _ => some (f.read h place)
  | _ => none

/-! ## The call stack -/

def showPlace (chunk : String) (line : Nat) : String :=
  s!"{chunk}:{line}: "

/-- The places of the open functions from the innermost on; host functions have none. -/
def places (chunk : String) (line : Nat) : List Task → List String
  | [] => [showPlace chunk line]
  | .back f :: rest => showPlace chunk line :: places chunk f.line rest
  | .host _ _ levels _ :: rest => List.replicate levels "" ++ places chunk line rest
  | _ :: rest => places chunk line rest

/-- The place of a level of the call stack, counted from one. -/
def placeAt (chunk : String) (line : Nat) (tasks : List Task) (level : Nat) : String :=
  (places chunk line tasks)[level - 1]?.getD ""

end Multisample.Script.Machine
