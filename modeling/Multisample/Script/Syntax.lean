import Multisample.Script.Number

/-!
# Syntax of scripts

A parsed script has its names resolved: a variable is a slot of the running
function or one that the function has captured, every other name is a field of
the environment.  Expressions that can fail carry the line to blame.
-/

namespace Multisample.Script

/-- Where a variable lives: in the running function, or among those it captured. -/
inductive Place where
  | own (slot : Nat)
  | captured (index : Nat)
deriving DecidableEq, Repr, Inhabited

/-- What messages call the source of a value. -/
structure Origin where
  kind : String
  name : Bytes
deriving Inhabited

/-- What may be said about a local variable at its declaration. -/
inductive Attribute where
  | plain
  | const
  | close
deriving DecidableEq, Repr, Inhabited

/-- A local variable at its declaration. -/
structure Declared where
  name : String
  slot : Nat
  kind : Attribute := .plain
deriving Repr, Inhabited

inductive UnaryOp where
  | minus
  | complement
  | negation
  | length
deriving DecidableEq, Repr, Inhabited

/-- Operators on numbers. -/
inductive ArithOp where
  | add | sub | mul | div | mod | pow | floorDiv
  | bitAnd | bitOr | bitXor | shiftLeft | shiftRight
deriving DecidableEq, Repr, Inhabited

inductive BinaryOp where
  | arith (op : ArithOp)
  | concat
  | eq | ne | lt | le | gt | ge
deriving DecidableEq, Repr, Inhabited

mutual

inductive Expr where
  | nil
  | bool (b : Bool)
  | number (n : Number)
  | text (b : Bytes)
  /-- The surplus arguments of the running function. -/
  | surplus
  | var (place : Place) (name : String)
  /-- A name that is no variable, looked up in the environment. -/
  | global (environment : Place) (name : Bytes) (line : Nat)
  | index (object key : Expr) (line : Nat)
  | call (callee : Expr) (arguments : List Expr) (line : Nat)
  | method (object : Expr) (name : Bytes) (arguments : List Expr) (line : Nat)
  | function (f : Function)
  | unary (op : UnaryOp) (e : Expr) (line : Nat)
  | binary (op : BinaryOp) (a b : Expr) (line : Nat)
  | both (a b : Expr)
  | either (a b : Expr)
  | table (fields : List Field) (line : Nat)
  /-- An expression in parentheses, which stands for one value. -/
  | single (e : Expr)

inductive Field where
  | item (e : Expr)
  | entry (key value : Expr)

inductive Stmt where
  | declare (names : List Declared) (values : List Expr) (line : Nat)
  | assign (targets values : List Expr) (line : Nat)
  | run (call : Expr)
  | block (body : List Stmt)
  | loopWhile (condition : Expr) (body : List Stmt)
  | loopUntil (body : List Stmt) (condition : Expr)
  | choose (arms : List Arm) (otherwise : List Stmt)
  | loopCount (slot : Nat) (start stop step : Expr) (body : List Stmt) (line : Nat)
  | loopEach (slots : List Nat) (values : List Expr) (body : List Stmt) (line : Nat)
  | declareFunction (slot : Nat) (f : Function)
  | label (name : String)
  | jump (name : String)
  | leave
  | give (values : List Expr) (line : Nat)

/-- A condition and what to do when it holds. -/
inductive Arm where
  | mk (condition : Expr) (body : List Stmt)

inductive Function where
  | mk (slots params : Nat) (surplus : Bool) (captures : List Place) (body : List Stmt)

end

instance : Inhabited Expr := ⟨.nil⟩

instance : Inhabited Stmt := ⟨.leave⟩

instance : Inhabited Function := ⟨.mk 0 0 false [] []⟩

namespace Function

/-- How many variables live at once, parameters included. -/
def slots : Function → Nat
  | mk slots _ _ _ _ => slots

def params : Function → Nat
  | mk _ params _ _ _ => params

def takesSurplus : Function → Bool
  | mk _ _ surplus _ _ => surplus

/-- The variables of the function around this one that it captures. -/
def captures : Function → List Place
  | mk _ _ _ captures _ => captures

def body : Function → List Stmt
  | mk _ _ _ _ body => body

end Function

namespace Expr

/-- Whether an expression can stand for several values. -/
def isMulti : Expr → Bool
  | surplus | call .. | method .. => true
  | _ => false

/-- What messages call the source of the expression's value, if it has a name. -/
def origin? : Expr → Option Origin
  | var (.own _) name => some ⟨"local", Bytes.ofString name⟩
  | var (.captured _) name => some ⟨"upvalue", Bytes.ofString name⟩
  | global _ name _ => some ⟨"global", name⟩
  | index object key _ =>
    match key with
    | text name =>
      match object with
      | var _ "_ENV" => some ⟨"global", name⟩
      | _ => some ⟨"field", name⟩
    | _ => some ⟨"field", Bytes.ofString "?"⟩
  | text b => some ⟨"constant", b⟩
  | single e => e.origin?
  | _ => none

end Expr

end Multisample.Script
