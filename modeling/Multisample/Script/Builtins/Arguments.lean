import Multisample.Script.Operations

/-!
# Arguments of host functions

Host functions check their arguments one by one.  The first one that does not
fit is blamed by its position and by what the function was called.
-/

namespace Multisample.Script

/-- A function of the host. -/
structure Builtin where
  name : String
  /-- Some functions keep their state in a table. -/
  run : Option Nat → List Value → Act (List Value)
  /-- How many levels of the call stack a call takes. -/
  levels : Nat := 1

instance : Inhabited Builtin := ⟨⟨"", fun _ _ => pure [], 1⟩⟩

namespace Builtin

/-- A function without a state of its own. -/
def plain (name : String) (run : List Value → Act (List Value)) : Builtin :=
  { name, run := fun _ arguments => run arguments }

end Builtin

namespace Act

/-- The error of an argument; the object of a method is not counted. -/
def badArgument {α : Type} (position : Nat) (message : String) : Act α := do
  let called := (← site).called
  let name := called.name.display
  if called.kind == "method" then
    if position = 1 then blame s!"calling '{name}' on bad self ({message})"
    else blame s!"bad argument #{position - 1} to '{name}' ({message})"
  else blame s!"bad argument #{position} to '{name}' ({message})"

/-- The error of an argument of the wrong type. -/
def wrongType {α : Type} (position : Nat) (arguments : List Value) (expected : String) : Act α := do
  let got ← match arguments[position - 1]? with
    | some v => typeName v
    | none => pure "no value"
  badArgument position s!"{expected} expected, got {got}"

def anyArgument (position : Nat) (arguments : List Value) : Act Value :=
  match arguments[position - 1]? with
  | some v => return v
  | none => badArgument position "value expected"

def tableArgument (position : Nat) (arguments : List Value) : Act Nat :=
  match arguments[position - 1]? with
  | some (.table id) => return id
  | _ => wrongType position arguments "table"

def numberArgument (position : Nat) (arguments : List Value) : Act Number :=
  match arguments[position - 1]?.bind Value.toNumber? with
  | some n => return n
  | none => wrongType position arguments "number"

def intArgument (position : Nat) (arguments : List Value) : Act Int64 := do
  match (← numberArgument position arguments).toInt? with
  | some n => return n
  | none => badArgument position "number has no integer representation"

def floatArgument (position : Nat) (arguments : List Value) : Act Float := do
  return (← numberArgument position arguments).toFloat

def textArgument (position : Nat) (arguments : List Value) : Act Bytes :=
  match arguments[position - 1]?.bind Value.toText? with
  | some b => return b
  | none => wrongType position arguments "string"

def isMissing (position : Nat) (arguments : List Value) : Bool :=
  (arguments.getD (position - 1) .nil).isNil

/-- An argument that may be missing. -/
def optional {α : Type} (position : Nat) (arguments : List Value) (default : α)
    (read : Nat → List Value → Act α) : Act α :=
  if isMissing position arguments then return default else read position arguments

end Act

end Multisample.Script
