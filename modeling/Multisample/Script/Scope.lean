import Multisample.Script.Lexer

/-!
# Scopes of names

While a script is read, every function that is still open has its variables,
the variables it captured from the functions around it, and its open blocks
with their labels and jumps.  A jump may leave blocks and go back; it may not
enter the scope of a variable.
-/

namespace Multisample.Script

/-- Why a script cannot be read. -/
structure SyntaxFault where
  line : Nat
  message : String
deriving Inhabited

/-- A label, or a jump to one, and how many variables are in scope there. -/
structure Mark where
  name : String
  line : Nat
  locals : Nat
deriving Inhabited

structure BlockScope where
  isLoop : Bool := false
  /-- How many variables are in scope where the block begins. -/
  locals : Nat := 0
  labels : List Mark := []
  /-- Jumps out of this block or forward in it, whose label has not been seen. -/
  jumps : List Mark := []
deriving Inhabited

/-- A variable of a function further out. -/
structure Capture where
  name : String
  source : Place
  kind : Attribute
deriving Inhabited

structure FunctionScope where
  /-- The variables in scope, the innermost first. -/
  locals : List Declared := []
  captures : List Capture := []
  blocks : List BlockScope := [{}]
  takesSurplus : Bool := false
  /-- How many variables have been in scope at once. -/
  slots : Nat := 0
deriving Inhabited

namespace FunctionScope

def maxLocals : Nat := 200

def maxCaptures : Nat := 255

/-- Brings a variable into scope. -/
def declare (f : FunctionScope) (name : String) (kind : Attribute) : Except String (Declared × FunctionScope) :=
  let slot := f.locals.length
  if maxLocals ≤ slot then .error s!"too many local variables (limit is {maxLocals})"
  else
    let declared := { name, slot, kind : Declared }
    .ok (declared, { f with locals := declared :: f.locals, slots := max f.slots (slot + 1) })

def openBlock (f : FunctionScope) (isLoop : Bool) : FunctionScope :=
  { f with blocks := { isLoop, locals := f.locals.length } :: f.blocks }

/-- Hands jumps without a label to the block around. -/
def inherit (jumps : List Mark) (locals : Nat) (outer : BlockScope) : BlockScope :=
  { outer with
    jumps := jumps.map (fun j => { j with locals := min j.locals locals }) ++ outer.jumps }

/-- Ends the innermost block: its variables go out of scope. -/
def closeBlock (f : FunctionScope) : Except SyntaxFault FunctionScope :=
  match f.blocks with
  | [] => .ok f
  | block :: outer =>
    let locals := f.locals.drop (f.locals.length - block.locals)
    match outer with
    | [] =>
      match block.jumps.getLast? with
      | some j => .error ⟨j.line, s!"no visible label '{j.name}' for goto at line {j.line}"⟩
      | none => .ok { f with locals, blocks := [] }
    | next :: rest => .ok { f with locals, blocks := inherit block.jumps block.locals next :: rest }

/-- The label of a name that a jump can see. -/
def label? (f : FunctionScope) (name : String) : Option Mark :=
  f.blocks.findSome? fun b => b.labels.find? (·.name == name)

/-- Records a jump unless it goes back to a label already seen. -/
def jump (f : FunctionScope) (name : String) (line : Nat) : FunctionScope :=
  if (f.label? name).isSome then f
  else
    match f.blocks with
    | [] => f
    | block :: outer =>
      let mark := { name, line, locals := f.locals.length : Mark }
      { f with blocks := { block with jumps := mark :: block.jumps } :: outer }

/-- Places a label; one at the end of its block is outside the scope of the block's variables. -/
def placeLabel (f : FunctionScope) (name : String) (line : Nat) (isLast : Bool) :
    Except String FunctionScope :=
  match f.label? name, f.blocks with
  | some old, _ => .error s!"label '{name}' already defined on line {old.line}"
  | none, [] => .ok f
  | none, block :: outer =>
    let locals := if isLast then block.locals else f.locals.length
    match block.jumps.find? fun j => j.name == name && j.locals < locals with
    | some j =>
      let entered := (f.locals.reverse[j.locals]?.map (·.name)).getD ""
      .error s!"<goto {name}> at line {j.line} jumps into the scope of local '{entered}'"
    | none =>
      let labels := { name, line, locals : Mark } :: block.labels
      let jumps := block.jumps.filter fun j => j.name != name
      .ok { f with blocks := { block with labels, jumps } :: outer }

def isInLoop (f : FunctionScope) : Bool :=
  f.blocks.any (·.isLoop)

end FunctionScope

/-- Finds a name in the functions from the innermost on; each one in between captures it. -/
def resolve (name : String) : List FunctionScope → Option (Place × Attribute) × List FunctionScope
  | [] => (none, [])
  | f :: outer =>
    match f.locals.find? (·.name == name) with
    | some d => (some (.own d.slot, d.kind), f :: outer)
    | none =>
      match f.captures.findIdx? (·.name == name) with
      | some i => (some (.captured i, (f.captures[i]?.map (·.kind)).getD .plain), f :: outer)
      | none =>
        match resolve name outer with
        | (some (source, kind), outer) =>
          (some (.captured f.captures.length, kind),
            { f with captures := f.captures ++ [⟨name, source, kind⟩] } :: outer)
        | (none, outer) => (none, f :: outer)

end Multisample.Script
