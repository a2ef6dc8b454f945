import Multisample.Script.Syntax

/-!
# Values of scripts

Tables and closures have an identity and are compared by it; everything else is
compared by what it is.  Values are ordered so that tables can be maps: whole
numbers from one on come first.
-/

namespace Multisample.Script

/-- What the host gives to a script to name a library or an instrument of one. -/
inductive Handle where
  | library (index : Nat)
  | instrument (library index : Nat)
deriving DecidableEq, Repr, Inhabited

inductive Value where
  | nil
  | bool (b : Bool)
  | number (n : Number)
  | text (b : Bytes)
  | table (id : Nat)
  /-- A function of the script with the cells of its captured variables. -/
  | closure (id : Nat) (f : Function) (cells : Array Nat)
  /-- A function of the host; some keep their state in a table. -/
  | builtin (id : Nat) (state : Option Nat)
  | handle (h : Handle)
  /-- What a failed function of the host raises. -/
  | failure (message : String)
  /-- A value that scripts can only pass around, known by its type. -/
  | foreign (type : String)
deriving Inhabited

namespace Value

def ofString (s : String) : Value := text (Bytes.ofString s)

def int (n : Int64) : Value := number (.int n)

def ofNat (n : Nat) : Value := int (Int64.ofNat n)

def float (x : Float) : Value := number (.float x)

/-- Everything but nil and false counts as true. -/
def isTrue : Value → Bool
  | nil | bool false => false
  | _ => true

def isNil : Value → Bool
  | nil => true
  | _ => false

/-- The type as scripts see it. -/
def typeName : Value → String
  | nil => "nil"
  | bool _ => "boolean"
  | number _ => "number"
  | text _ => "string"
  | table _ => "table"
  | closure .. | builtin .. => "function"
  | handle _ | failure _ => "userdata"
  | foreign type => type

/-- The type as the host sees it, which tells integers from floats and failures from handles. -/
def kindName : Value → String
  | number (.int _) => "integer"
  | failure _ => "error"
  | v => v.typeName

def rawEq : Value → Value → Bool
  | nil, nil => true
  | bool a, bool b => a == b
  | number a, number b => a.eq b
  | text a, text b => a == b
  | table a, table b => a == b
  | closure a _ _, closure b _ _ => a == b
  | builtin a s, builtin b t => a == b && s == t
  | handle a, handle b => a == b
  | failure a, failure b => a == b
  | foreign a, foreign b => a == b
  | _, _ => false

/-- The place of a type in the order of values. -/
def rank : Value → Nat
  | number (.int _) => 0
  | number (.float _) => 1
  | text _ => 2
  | bool _ => 3
  | table _ => 4
  | closure .. => 5
  | builtin .. => 6
  | handle _ => 7
  | failure _ => 8
  | foreign _ => 9
  | nil => 10

/-- The two numbers that tell handles apart. -/
def handleCode : Handle → Nat × Nat
  | .library i => (i, 0)
  | .instrument l i => (l, i + 1)

/-- An order of values; whole numbers start at one, and those below it come last. -/
def order : Value → Value → Ordering
  | number (.int a), number (.int b) => compare (a - 1).toUInt64 (b - 1).toUInt64
  | number (.float x), number (.float y) => compare x.toBits y.toBits
  | text a, text b => Bytes.compare a b
  | bool a, bool b => compare a b
  | table a, table b => compare a b
  | closure a _ _, closure b _ _ => compare a b
  | builtin a s, builtin b t => (compare a b).then (compare s t)
  | handle a, handle b =>
    (compare (handleCode a).1 (handleCode b).1).then (compare (handleCode a).2 (handleCode b).2)
  | failure a, failure b => compare a b
  | foreign a, foreign b => compare a b
  | a, b => compare a.rank b.rank

/-- The key that a value is in a table: a float without fraction counts as an integer, and nil and
what is not a number are no keys. -/
def key? : Value → Option Value
  | nil => none
  | number (.float x) =>
    match Number.wholeOf? x with
    | some n => some (int n)
    | none => if x.isNaN then none else some (float x)
  | v => some v

end Value

end Multisample.Script
