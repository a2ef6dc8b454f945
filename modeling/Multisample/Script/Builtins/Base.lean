import Multisample.Script.Builtins.Arguments

/-!
# Basic functions

Functions that every script needs: types, conversions, raw access, errors and
calls that catch them.
-/

namespace Multisample.Script.Builtins

open Act

/-- The result of a call that caught no error. -/
def succeeded (values : List Value) : List Value :=
  .bool true :: values

/-- The result of a call that caught an error. -/
def failed (e : Value) : List Value :=
  [.bool false, e]

/-- Whether the result of a protected call says that memory was refused. -/
def saysRefused : List Value → Bool
  | .bool false :: .text message :: _ => message == Bytes.ofString refusedMessage
  | _ => false

/-- A refused allocation trips the watchdog, and a tripped watchdog cannot be caught. -/
def protect (values : List Value) : Act (List Value) := do
  if saysRefused values then change fun w => { w with watchdog := w.watchdog.refuse }
  checkWatchdog
  return values

def protectedCall (arguments : List Value) : Act (List Value) :=
  match arguments with
  | [] => fail "not enough arguments to pcall"
  | f :: arguments => do
    match ← attempt f arguments with
    | .ok values => protect (succeeded values)
    | .error e => protect (failed e.value)

/-- Hands an error to its handler, and the handler's own errors too, but not for ever. -/
def handleError (handler : Value) : Nat → Raised → Act (List Value)
  | _, .refused => return failed Raised.refused.value
  | 0, _ => return failed (.ofString "error in error handling")
  | fuel + 1, .thrown v => do
    match ← attempt handler [v] with
    | .ok values => return .bool false :: values
    | .error e => handleError handler fuel e

def protectedCallWith (arguments : List Value) : Act (List Value) :=
  match arguments with
  | f :: handler :: arguments => do
    match ← attempt f arguments with
    | .ok values => protect (succeeded values)
    | .error e => do protect (← handleError handler 10 e)
  | _ => fail "not enough arguments to xpcall"

/-- Raises a value; a text is told where the level of the call stack is. -/
def raiseAt (v : Value) (level : Int64) : Act (List Value) := do
  match v with
  | .text message =>
    if 0 < level then
      let place := (← site).place level.toInt.toNat
      raise (.text (Bytes.ofString place ++ message))
    else raise v
  | v => raise v

def error (arguments : List Value) : Act (List Value) := do
  let level ← optional 2 arguments 1 intArgument
  raiseAt (arguments.headD .nil) level

def assert (arguments : List Value) : Act (List Value) := do
  let v ← anyArgument 1 arguments
  if v.isTrue then return arguments
  else raiseAt (arguments.getD 1 (.ofString "assertion failed!")) 1

def typeOf (arguments : List Value) : Act (List Value) := do
  return [.ofString (← anyArgument 1 arguments).typeName]

def toStringOf (arguments : List Value) : Act (List Value) := do
  return [.text (← toText (← anyArgument 1 arguments))]

/-- Reads digits of a base with a sign and blanks around them. -/
def readInBase? (base : Nat) (b : Bytes) : Option Int64 :=
  let (negative, digits) := match Bytes.trim b with
    | 45 :: rest => (true, rest)
    | rest => (false, rest)
  if digits.isEmpty || !digits.all fun c => (Bytes.digitValue? c).any (· < base) then none
  else
    let n : Nat := digits.foldl (fun n c => base * n + (Bytes.digitValue? c).getD 0) 0
    let wrapped := (UInt64.ofNat n).toInt64
    some (if negative then -wrapped else wrapped)

def toNumberOf (arguments : List Value) : Act (List Value) := do
  if isMissing 2 arguments then
    let v ← anyArgument 1 arguments
    return [(v.toNumber?.map Value.number).getD .nil]
  else
    let base ← intArgument 2 arguments
    match arguments.headD .nil with
    | .text b =>
      if base < 2 || 36 < base then badArgument 2 "base out of range"
      else return [((readInBase? base.toInt.toNat b).map Value.int).getD .nil]
    | _ => wrongType 1 arguments "string"

def select (arguments : List Value) : Act (List Value) := do
  match arguments with
  | .text b :: rest =>
    if b == Bytes.ofString "#" then return [.ofNat rest.length]
    else selectFrom (← intArgument 1 arguments) rest
  | _ => selectFrom (← intArgument 1 arguments) (arguments.drop 1)
where
  selectFrom (n : Int64) (rest : List Value) : Act (List Value) :=
    if n < 0 then
      let back := n.toInt.natAbs
      if rest.length < back then badArgument 1 "index out of range"
      else return rest.drop (rest.length - back)
    else if n == 0 then badArgument 1 "index out of range"
    else return rest.drop (n.toInt.toNat - 1)

def rawGet (arguments : List Value) : Act (List Value) := do
  let t ← tableArgument 1 arguments
  return [← getRaw t (← anyArgument 2 arguments)]

def rawSet (arguments : List Value) : Act (List Value) := do
  let t ← tableArgument 1 arguments
  let k ← anyArgument 2 arguments
  let v ← anyArgument 3 arguments
  setField t k v
  return [.table t]

def rawEqual (arguments : List Value) : Act (List Value) := do
  let a ← anyArgument 1 arguments
  let b ← anyArgument 2 arguments
  return [.bool (a.rawEq b)]

def rawLength (arguments : List Value) : Act (List Value) := do
  match arguments.headD .nil with
  | .text b => return [.ofNat b.size]
  | .table id => return [← ask fun w => .ofNat (w.heap.table id).length]
  | _ => badArgument 1 "table or string expected"

def next (arguments : List Value) : Act (List Value) := do
  let t ← tableArgument 1 arguments
  match ← ask fun w => (w.heap.table t).next? (arguments.getD 1 .nil) with
  | some (some (k, v)) => return [k, v]
  | some none => return [.nil]
  | none => fault "invalid key to 'next'"

def getMetatable (arguments : List Value) : Act (List Value) := do
  let v ← anyArgument 1 arguments
  match ← ask fun w => w.metatable? v with
  | none => return [.nil]
  | some id =>
    let shown ← ask fun w => w.heap.getString id "__metatable"
    return [if shown.isNil then .table id else shown]

def setMetatable (arguments : List Value) : Act (List Value) := do
  let t ← tableArgument 1 arguments
  let metatable : Option Nat ←
    match arguments[1]? with
    | some Value.nil => pure none
    | some (Value.table id) => pure (some id)
    | _ => wrongType 2 arguments "nil or table"
  let isProtected ← ask fun w => !(w.behaviour (.table t) "__metatable").isNil
  if isProtected then blame "cannot change a protected metatable"
  else
    change (·.mapHeap (·.modify t fun t => { t with metatable }))
    return [.table t]

/-- Prints the texts of the arguments, with tabs in between. -/
def print (arguments : List Value) : Act (List Value) := do
  let texts ← arguments.mapM toText
  let line := (texts.intersperse (Bytes.ofString "\t")).foldl (· ++ ·) .empty
  change fun w => { w with output := (line ++ Bytes.ofString "\n") :: w.output }
  return []

def warn (arguments : List Value) : Act (List Value) := do
  let _ ← textArgument 1 arguments
  return []

/-- Garbage needs no help; only the questions about it are answered. -/
def collectGarbage (arguments : List Value) : Act (List Value) := do
  let option ← optional 1 arguments (Bytes.ofString "collect") textArgument
  match option.display with
  | "collect" | "stop" | "restart" => return [.ofNat 0]
  | "count" => return [← ask fun w => .float (w.heap.used.toFloat / 1024)]
  | "step" => return [.bool true]
  | "isrunning" => return [.bool true]
  | "setpause" => return [.ofNat 200]
  | "setstepmul" => return [.ofNat 100]
  | "generational" | "incremental" => return [.ofString "incremental"]
  | other => badArgument 1 s!"invalid option '{other}'"

/-- One step through the positions of a table. -/
def positionStep (arguments : List Value) : Act (List Value) := do
  let i ← intArgument 2 arguments
  let v ← index (arguments.headD .nil) (.int (i + 1)) none
  return if v.isNil then [.nil] else [.int (i + 1), v]

/-- The functions that steps of loops call have the first places among all host functions. -/
def nextFunction : Value := .builtin 0 none

def positionFunction : Value := .builtin 1 none

def pairs (arguments : List Value) : Act (List Value) := do
  let v ← anyArgument 1 arguments
  match ← ask fun w => w.behaviour v "__pairs" with
  | .nil => return [nextFunction, v, .nil]
  | handler => do
    let values ← call handler [v]
    return [values.getD 0 .nil, values.getD 1 .nil, values.getD 2 .nil]

def ipairs (arguments : List Value) : Act (List Value) := do
  return [positionFunction, ← anyArgument 1 arguments, .ofNat 0]

def base : List Builtin :=
  [.plain "assert" assert, .plain "collectgarbage" collectGarbage, .plain "error" error,
    .plain "getmetatable" getMetatable, .plain "ipairs" ipairs, .plain "pairs" pairs,
    { Builtin.plain "pcall" protectedCall with levels := 2 }, .plain "print" print, .plain "rawequal" rawEqual,
    .plain "rawget" rawGet, .plain "rawlen" rawLength, .plain "rawset" rawSet,
    .plain "select" select, .plain "setmetatable" setMetatable, .plain "tonumber" toNumberOf,
    .plain "tostring" toStringOf, .plain "type" typeOf, .plain "warn" warn,
    { Builtin.plain "xpcall" protectedCallWith with levels := 2 }]

end Multisample.Script.Builtins
