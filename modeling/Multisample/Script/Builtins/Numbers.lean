import Multisample.Script.Builtins.Arguments
import Multisample.Script.Random

/-!
# Functions on numbers

Rounding, powers and angles, the two kinds of numbers, and random numbers.
-/

namespace Multisample.Script.Builtins.Numbers

open Act

/-- A float without fraction as an integer where it fits. -/
def whole (x : Float) : Value :=
  match Number.wholeOf? x with
  | some n => .int n
  | none => .float x

def onFloat (f : Float → Float) (arguments : List Value) : Act (List Value) := do
  return [.float (f (← floatArgument 1 arguments))]

def abs (arguments : List Value) : Act (List Value) := do
  match ← numberArgument 1 arguments with
  | .int n => return [.int (if n < 0 then -n else n)]
  | .float x => return [.float x.abs]

/-- Rounds to a whole number; integers are that already. -/
def rounded (f : Float → Float) (arguments : List Value) : Act (List Value) := do
  match ← numberArgument 1 arguments with
  | .int n => return [.int n]
  | .float x => return [whole (f x)]

def remainder (arguments : List Value) : Act (List Value) := do
  match ← numberArgument 1 arguments, ← numberArgument 2 arguments with
  | .int a, .int b =>
    if b == 0 then badArgument 2 "zero" else return [.int (if b == -1 then 0 else a % b)]
  | a, b => return [.float (Binary.remainder a.toFloat b.toFloat)]

def logarithm (arguments : List Value) : Act (List Value) := do
  let x ← floatArgument 1 arguments
  if isMissing 2 arguments then return [.float x.log]
  else
    let base ← floatArgument 2 arguments
    return [.float (if base == 2 then x.log2 else if base == 10 then x.log10 else x.log / base.log)]

def arcTangent (arguments : List Value) : Act (List Value) := do
  let y ← floatArgument 1 arguments
  let x ← optional 2 arguments 1 floatArgument
  return [.float (Float.atan2 y x)]

/-- The argument that no other one is better than. -/
def best (better : Number → Number → Bool) (arguments : List Value) : Act (List Value) := do
  let first ← numberArgument 1 arguments
  let rest ← (List.range (arguments.length - 1)).mapM fun i => numberArgument (i + 2) arguments
  return [.number (rest.foldl (fun b n => if better n b then n else b) first)]

def parts (arguments : List Value) : Act (List Value) := do
  match ← numberArgument 1 arguments with
  | .int n => return [.int n, .float 0]
  | .float x =>
    let integral := if x < 0 then x.ceil else x.floor
    return [.float integral, .float (if x == integral then 0 else x - integral)]

def toInteger (arguments : List Value) : Act (List Value) := do
  let v ← anyArgument 1 arguments
  return [(v.toInt?.map Value.int).getD .nil]

def kind (arguments : List Value) : Act (List Value) := do
  match ← anyArgument 1 arguments with
  | .number (.int _) => return [.ofString "integer"]
  | .number (.float _) => return [.ofString "float"]
  | _ => return [.nil]

def unsignedLess (arguments : List Value) : Act (List Value) := do
  let a ← intArgument 1 arguments
  let b ← intArgument 2 arguments
  return [.bool (a.toUInt64 < b.toUInt64)]

def draw : Act UInt64 :=
  fun _ w =>
    let (n, seed) := Random.next w.seed
    .done { w with seed } n

def random (arguments : List Value) : Act (List Value) := do
  let n ← draw
  let between (low high : Int64) : Act (List Value) := do
    if high < low then badArgument arguments.length "interval is empty"
    else
      let seed ← ask fun w => w.seed
      let (n, seed) := Random.upTo n (high.toUInt64 - low.toUInt64) seed
      change fun w => { w with seed }
      return [.int (n + low.toUInt64).toInt64]
  match arguments with
  | [] => return [.float (Random.fraction n)]
  | [_] =>
    let high ← intArgument 1 arguments
    if high == 0 then return [.int n.toInt64] else between 1 high
  | [_, _] => between (← intArgument 1 arguments) (← intArgument 2 arguments)
  | _ => blame "wrong number of arguments"

def randomSeed (arguments : List Value) : Act (List Value) := do
  let first ← match arguments with
    | [] => pure 0
    | _ => do
      match ← numberArgument 1 arguments with
      | .int n => pure n
      | .float x => pure ((Number.wholeOf? x).getD x.toBits.toInt64)
  let second ← optional 2 arguments 0 intArgument
  change fun w => { w with seed := Random.seed first.toUInt64 second.toUInt64 }
  return [.int first, .int second]

def circle : Float := 3.141592653589793

def all : List Builtin :=
  [.plain "math.abs" abs, .plain "math.acos" (onFloat Float.acos),
    .plain "math.asin" (onFloat Float.asin), .plain "math.atan" arcTangent,
    .plain "math.ceil" (rounded Float.ceil), .plain "math.cos" (onFloat Float.cos),
    .plain "math.deg" (onFloat fun x => x * (180 / circle)),
    .plain "math.exp" (onFloat Float.exp), .plain "math.floor" (rounded Float.floor),
    .plain "math.fmod" remainder, .plain "math.log" logarithm,
    .plain "math.max" (best fun a b => b.lt a), .plain "math.min" (best fun a b => a.lt b),
    .plain "math.modf" parts, .plain "math.rad" (onFloat fun x => x * (circle / 180)),
    .plain "math.random" random, .plain "math.randomseed" randomSeed,
    .plain "math.sin" (onFloat Float.sin), .plain "math.sqrt" (onFloat Float.sqrt),
    .plain "math.tan" (onFloat Float.tan), .plain "math.tointeger" toInteger,
    .plain "math.type" kind, .plain "math.ult" unsignedLess]

/-- The numbers that have names. -/
def constants : List (String × Value) :=
  [("huge", .float (1 / 0)), ("maxinteger", .int Int64.maxValue),
    ("mininteger", .int Int64.minValue), ("pi", .float circle)]

end Multisample.Script.Builtins.Numbers
