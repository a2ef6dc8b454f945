import Multisample.Script.Step

/-!
# Operators

What operators do to values: numbers are computed with, texts that look like
numbers count as numbers, and everything else may say by its metatable what is
to be done.
-/

namespace Multisample.Script

/-! ## Conversions -/

namespace Value

/-- The number that a value is or, as a text, reads as. -/
def toNumber? : Value → Option Number
  | number n => some n
  | text b => Number.read? b
  | _ => none

def toInt? (v : Value) : Option Int64 :=
  v.toNumber?.bind Number.toInt?

/-- The text that a text or number stands for. -/
def toText? : Value → Option Bytes
  | text b => some b
  | number n => some (Bytes.ofString n.text)
  | _ => none

end Value

/-- How a message calls a value by its source. -/
def Origin.describe : Option Origin → String
  | some o => s!" ({o.kind} '{o.name.display}')"
  | none => ""

/-- The identities of objects look like addresses. -/
def address (kind id : Nat) : String :=
  let digits := Notation.hexDigits (0x550000000000 + kind * 0x1000000000 + id * 32)
  "0x" ++ digits

namespace Act

/-- How messages call the type of a value; its metatable may say. -/
def typeName (v : Value) : Act String :=
  ask fun w =>
    match v, w.behaviour v "__name" with
    | .table _, .text name => name.display
    | _, _ => v.typeName

/-! ## Fields -/

/-- Follows metatables until a field is found; `origin` says where the first value came from. -/
def indexFrom : Nat → Option Origin → Value → Value → Act Value
  | 0, _, _, _ => fault "'__index' chain too long; possibly a loop"
  | fuel + 1, origin, v, k => do
    let stored ← match v with
      | .table id => getRaw id k
      | _ => pure .nil
    if !stored.isNil then return stored
    let handler ← ask fun w => w.behaviour v "__index"
    match handler, v with
    | .nil, .table _ => return .nil
    | .nil, _ => do
      fault s!"attempt to index a {← typeName v} value{Origin.describe origin}"
    | .closure .., _ | .builtin .., _ => callOne handler [v, k]
    | _, _ => indexFrom fuel none handler k

def maxChain : Nat := 2000

def index (v k : Value) (origin : Option Origin) : Act Value :=
  indexFrom maxChain origin v k

/-- Stores under a key, which must be one. -/
def setField (table : Nat) (k v : Value) : Act Unit := do
  match k.key? with
  | some k => setRaw table k v
  | none => fault (if k.isNil then "index is nil" else "index is NaN")

def setIndexFrom : Nat → Option Origin → Value → Value → Value → Act Unit
  | 0, _, _, _, _ => fault "'__newindex' chain too long; possibly a loop"
  | fuel + 1, origin, target, k, v => do
    let handler ← ask fun w =>
      match target with
      | .table id =>
        if (w.heap.get id k).isNil then w.behaviour target "__newindex" else .nil
      | _ => w.behaviour target "__newindex"
    match handler, target with
    | .nil, .table id => setField id k v
    | .nil, _ => do
      fault s!"attempt to index a {← typeName target} value{Origin.describe origin}"
    | .closure .., _ | .builtin .., _ => do
      let _ ← call handler [target, k, v]
    | _, _ => setIndexFrom fuel none handler k v

def setIndex (target k v : Value) (origin : Option Origin) : Act Unit :=
  setIndexFrom maxChain origin target k v

/-! ## Arithmetic -/

end Act

namespace ArithOp

def event : ArithOp → String
  | add => "__add"
  | sub => "__sub"
  | mul => "__mul"
  | div => "__div"
  | mod => "__mod"
  | pow => "__pow"
  | floorDiv => "__idiv"
  | bitAnd => "__band"
  | bitOr => "__bor"
  | bitXor => "__bxor"
  | shiftLeft => "__shl"
  | shiftRight => "__shr"

/-- Whether the operator works on the bits of integers. -/
def isBitwise : ArithOp → Bool
  | bitAnd | bitOr | bitXor | shiftLeft | shiftRight => true
  | _ => false

/-- What an operator makes of integers; division and powers leave them. -/
def onInts : ArithOp → Int64 → Int64 → Option (Except String Number)
  | add, a, b => some (.ok (.int (a + b)))
  | sub, a, b => some (.ok (.int (a - b)))
  | mul, a, b => some (.ok (.int (a * b)))
  | mod, a, b =>
    some (if b == 0 then .error "attempt to perform 'n%%0'" else .ok (.int (Number.floorMod a b)))
  | floorDiv, a, b =>
    some (if b == 0 then .error "attempt to perform 'n//0'" else .ok (.int (Number.floorDiv a b)))
  | bitAnd, a, b => some (.ok (.int (a &&& b)))
  | bitOr, a, b => some (.ok (.int (a ||| b)))
  | bitXor, a, b => some (.ok (.int (a ^^^ b)))
  | shiftLeft, a, b => some (.ok (.int (Number.shiftLeft a b)))
  | shiftRight, a, b => some (.ok (.int (Number.shiftLeft a (-b))))
  | div, _, _ | pow, _, _ => none

/-- What an operator makes of floats. -/
def onFloats : ArithOp → Float → Float → Float
  | add, x, y => x + y
  | sub, x, y => x - y
  | mul, x, y => x * y
  | div, x, y => x / y
  | mod, x, y => Number.floatMod x y
  | pow, x, y => if y == 2 then x * x else x.pow y
  | floorDiv, x, y => (x / y).floor
  | _, x, _ => x

/-- What an operator makes of two numbers; bits are those of integers. -/
def onNumbers (op : ArithOp) (a b : Number) : Option (Except String Number) :=
  if op.isBitwise then do op.onInts (← a.toInt?) (← b.toInt?)
  else
    match a, b with
    | .int m, .int n =>
      match op.onInts m n with
      | some r => some r
      | none => some (.ok (.float (op.onFloats m.toFloat n.toFloat)))
    | _, _ => some (.ok (.float (op.onFloats a.toFloat b.toFloat)))

end ArithOp

namespace Act

/-- Which of two operands a message is about: the second one only if the first is fine. -/
def culprit (isFine : Value → Bool) (a b : Value × Option Origin) : Value × Option Origin :=
  if isFine a.1 then b else a

def isNumber : Value → Bool
  | .number _ => true
  | _ => false

/-- Lets the metatable of one of the operands decide, or fails. -/
def byBehaviour (event : String) (a b : Value) (otherwise : Act Value) : Act Value := do
  let handler ← ask fun w =>
    match w.behaviour a event with
    | .nil => w.behaviour b event
    | h => h
  match handler with
  | .nil => otherwise
  | h => callOne h [a, b]

/-- The error of an arithmetic operator. -/
def arithFault (op : ArithOp) (a b : Value × Option Origin) : Act Value := do
  if op.isBitwise && a.1.toNumber?.isSome && b.1.toNumber?.isSome then
    fault "number has no integer representation"
  let verb := if op.isBitwise then "perform bitwise operation on" else "perform arithmetic on"
  let fine := if op.isBitwise then isNumber else fun v => v.toNumber?.isSome
  let (v, origin) := culprit fine a b
  fault s!"attempt to {verb} a {← typeName v} value{Origin.describe origin}"

def arith (op : ArithOp) (a b : Value × Option Origin) : Act Value :=
  match a.1.toNumber?, b.1.toNumber? with
  | some m, some n =>
    match op.onNumbers m n with
    | some (.ok r) => return .number r
    | some (.error message) => fault message
    | none => byBehaviour op.event a.1 b.1 (arithFault op a b)
  | _, _ => byBehaviour op.event a.1 b.1 (arithFault op a b)

/-- Changes the sign of a number. -/
def minus (a : Value × Option Origin) : Act Value :=
  match a.1.toNumber? with
  | some n => return .number n.negate
  | none => byBehaviour "__unm" a.1 a.1 (arithFault .sub a a)

/-- Flips the bits of an integer. -/
def complement (a : Value × Option Origin) : Act Value :=
  match a.1.toInt? with
  | some n => return .int (n ^^^ -1)
  | none => byBehaviour "__bnot" a.1 a.1 (arithFault .bitXor a a)

/-! ## Texts and lengths -/

def concat (a b : Value × Option Origin) : Act Value :=
  match a.1.toText?, b.1.toText? with
  | some s, some t => do
    allocate (24 + s.size + t.size)
    return .text (s ++ t)
  | _, _ => byBehaviour "__concat" a.1 b.1 do
    let (v, origin) := culprit (fun v => v.toText?.isSome) a b
    fault s!"attempt to concatenate a {← typeName v} value{Origin.describe origin}"

def length (a : Value × Option Origin) : Act Value := do
  match a.1 with
  | .text b => return .ofNat b.size
  | v =>
    let handler ← ask fun w => w.behaviour v "__len"
    match handler, v with
    | .nil, .table id => ask fun w => .ofNat (w.heap.table id).length
    | .nil, _ => do fault s!"attempt to get length of a {← typeName v} value{Origin.describe a.2}"
    | h, _ => callOne h [v]

/-! ## Comparisons -/

def eq (a b : Value) : Act Bool := do
  if a.rawEq b then return true
  match a, b with
  | .table _, .table _ => return (← byBehaviour "__eq" a b (return .bool false)).isTrue
  | _, _ => return false

/-- The error of comparing what has no order. -/
def compareFault (a b : Value) : Act Value := do
  let s ← typeName a
  let t ← typeName b
  if s == t then fault s!"attempt to compare two {s} values"
  else fault s!"attempt to compare {s} with {t}"

def lt (a b : Value) : Act Bool :=
  match a, b with
  | .number m, .number n => return m.lt n
  | .text s, .text t => return Bytes.lt s t
  | _, _ => return (← byBehaviour "__lt" a b (compareFault a b)).isTrue

def le (a b : Value) : Act Bool :=
  match a, b with
  | .number m, .number n => return m.le n
  | .text s, .text t => return Bytes.le s t
  | _, _ => return (← byBehaviour "__le" a b (compareFault a b)).isTrue

def binary (op : BinaryOp) (a b : Value × Option Origin) : Act Value :=
  match op with
  | .arith op => arith op a b
  | .concat => concat a b
  | .eq => return .bool (← eq a.1 b.1)
  | .ne => return .bool (!(← eq a.1 b.1))
  | .lt => return .bool (← lt a.1 b.1)
  | .le => return .bool (← le a.1 b.1)
  | .gt => return .bool (← lt b.1 a.1)
  | .ge => return .bool (← le b.1 a.1)

def unary (op : UnaryOp) (a : Value × Option Origin) : Act Value :=
  match op with
  | .minus => minus a
  | .complement => complement a
  | .negation => return .bool (!a.1.isTrue)
  | .length => length a

/-! ## Texts of values -/

/-- The text of an object: its type and an address. -/
def objectText (v : Value) (kind : String) : Bytes :=
  Bytes.ofString <| match v with
    | .table id => s!"{kind}: {address 1 id}"
    | .closure id _ _ => s!"{kind}: {address 2 id}"
    | .builtin id _ => s!"{kind}: builtin: {address 3 id}"
    | .handle (.library i) => s!"{kind}: {address 4 i}"
    | .handle (.instrument l i) => s!"{kind}: {address 5 (l * 65536 + i)}"
    | _ => s!"{kind}: {address 6 0}"

/-- The text of a value; its metatable may give it. -/
def toText (v : Value) : Act Bytes := do
  let handler ← ask fun w => match v with
    | .table _ => w.behaviour v "__tostring"
    | _ => .nil
  match handler, v with
  | .nil, .nil => return Bytes.ofString "nil"
  | .nil, .bool b => return Bytes.ofString (if b then "true" else "false")
  | .nil, .number n => return Bytes.ofString n.text
  | .nil, .text b => return b
  | .nil, .failure message =>
    return Bytes.ofString s!"runtime error: {message}\nstack traceback:\n\t[C]: in ?"
  | .nil, v => return objectText v (← typeName v)
  | h, v => do
    match ← callOne h [v] with
    | .text b => return b
    | _ => blame "'__tostring' must return a string"

end Act

end Multisample.Script
