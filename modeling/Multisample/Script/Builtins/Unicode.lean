import Multisample.Script.Builtins.Texts
import Multisample.Script.Lexer

/-!
# Functions on encoded characters

A text can be seen as a row of characters in one to six bytes each.  Strict
readers refuse what is no character of the standard.
-/

namespace Multisample.Script.Builtins.Unicode

open Act

def isContinuation (c : UInt8) : Bool :=
  0x80 ≤ c && c < 0xC0

/-- How many bytes a character takes by its first byte. -/
def width? (c : UInt8) : Option Nat :=
  if c < 0x80 then some 1
  else if c < 0xC0 then none
  else if c < 0xE0 then some 2
  else if c < 0xF0 then some 3
  else if c < 0xF8 then some 4
  else if c < 0xFC then some 5
  else if c < 0xFE then some 6
  else none

/-- The least code that needs so many bytes. -/
def leastCode : Nat → Nat
  | 2 => 0x80
  | 3 => 0x800
  | 4 => 0x10000
  | 5 => 0x200000
  | 6 => 0x4000000
  | _ => 0

/-- The character at an offset: its code and the offset behind it. -/
def decode? (s : Bytes) (i : Nat) (strict : Bool) : Option (Nat × Nat) := do
  let first := s.byteAt i
  let width ← width? first
  let tail := (s.extract (i + 1) (i + width)).toList
  guard (i < s.size && tail.length = width - 1 && tail.all isContinuation)
  let lead := if width = 1 then first.toNat else first.toNat % (1 <<< (7 - width))
  let code := tail.foldl (fun n c => 64 * n + c.toNat % 64) lead
  guard (leastCode width ≤ code)
  guard (!strict || (code ≤ 0x10FFFF && !(0xD800 ≤ code && code ≤ 0xDFFF)))
  return (code, i + width)

/-- A position counted from the end if it is negative; zero for one before the beginning. -/
def fromEnd (position : Int64) (size : Nat) : Int :=
  if 0 ≤ position then position.toInt
  else if size < position.toInt.natAbs then 0
  else size + position.toInt + 1

def char (arguments : List Value) : Act (List Value) := do
  let pieces ← (List.range arguments.length).mapM fun i => do
    let n ← intArgument (i + 1) arguments
    if n < 0 || Int64.ofNat ((1 <<< 31) - 1) < n then badArgument (i + 1) "value out of range"
    else return Lexer.encodePoint n.toInt.toNat
  return [.text (Bytes.ofList pieces.flatten)]

/-- The codes of all characters that start between two offsets. -/
def codesBetween (s : Bytes) (strict : Bool) (stop : Nat) :
    Nat → Nat → List Nat → Except Nat (List Nat)
  | 0, _, done => .ok done.reverse
  | fuel + 1, i, done =>
    if stop ≤ i then .ok done.reverse
    else
      match decode? s i strict with
      | some (code, next) => codesBetween s strict stop fuel next (code :: done)
      | none => .error i

def codePoint (arguments : List Value) : Act (List Value) := do
  let s ← textArgument 1 arguments
  let first := fromEnd (← optional 2 arguments 1 intArgument) s.size
  let last := fromEnd (← optional 3 arguments (Int64.ofInt first) intArgument) s.size
  if first < 1 then badArgument 2 "out of bounds"
  if (s.size : Int) < last then badArgument 3 "out of bounds"
  let strict := !(arguments.getD 3 .nil).isTrue
  match codesBetween s strict last.toNat (s.size + 1) (first.toNat - 1) [] with
  | .ok codes => return codes.map .ofNat
  | .error _ => blame "invalid UTF-8 code"

def length (arguments : List Value) : Act (List Value) := do
  let s ← textArgument 1 arguments
  let first := fromEnd (← optional 2 arguments 1 intArgument) s.size
  let last := fromEnd (← optional 3 arguments (-1) intArgument) s.size
  if first < 1 || (s.size : Int) + 1 < first then badArgument 2 "initial position out of bounds"
  if (s.size : Int) < last then badArgument 3 "final position out of bounds"
  let strict := !(arguments.getD 3 .nil).isTrue
  match codesBetween s strict last.toNat (s.size + 1) (first.toNat - 1) [] with
  | .ok codes => return [.ofNat codes.length]
  | .error i => return [.nil, .ofNat (i + 1)]

/-- The offset of the character so many characters behind another one. -/
def forward (s : Bytes) : Nat → Nat → Nat → Option Nat
  | 0, _, _ => none
  | fuel + 1, i, count =>
    if count = 0 then some i
    else if s.size ≤ i then none
    else
      let next := i + 1 + ((s.extract (i + 1) s.size).toList.takeWhile isContinuation).length
      forward s fuel next (count - 1)

/-- The offset of the character that a byte belongs to. -/
def startOf (s : Bytes) : Nat → Nat
  | 0 => 0
  | i + 1 => if isContinuation (s.byteAt (i + 1)) then startOf s i else i + 1

/-- The offset of the character so many characters before another one. -/
def backward (s : Bytes) : Nat → Nat → Option Nat
  | i, 0 => some i
  | 0, _ + 1 => none
  | i + 1, count + 1 => backward s (startOf s i) count
termination_by _ count => count

def offset (arguments : List Value) : Act (List Value) := do
  let s ← textArgument 1 arguments
  let n ← intArgument 2 arguments
  let default := if 0 < n then 1 else Int64.ofNat (s.size + 1)
  let i := fromEnd (← optional 3 arguments default intArgument) s.size - 1
  if i < 0 || (s.size : Int) < i then badArgument 3 "position out of bounds"
  let i := i.toNat
  if n == 0 then return [.ofNat (startOf s i + 1)]
  else if isContinuation (s.byteAt i) then blame "initial position is a continuation byte"
  else
    let found := if n < 0 then backward s i n.toInt.natAbs
      else forward s (s.size + 2) i (n.toInt.toNat - 1)
    return [(found.map fun i => Value.ofNat (i + 1)).getD .nil]

/-- One step through the characters of a text. -/
def step (strict : Bool) (arguments : List Value) : Act (List Value) := do
  let s ← textArgument 1 arguments
  let n := ((arguments.getD 1 .nil).toInt?.getD 0).toUInt64.toNat
  let skipped := ((s.extract n s.size).toList.takeWhile isContinuation).length
  let i := n + skipped
  if s.size ≤ i then return []
  else
    match decode? s i strict with
    | some (code, next) =>
      if isContinuation (s.byteAt next) then blame "invalid UTF-8 code"
      else return [.ofNat (i + 1), .ofNat code]
    | none => blame "invalid UTF-8 code"

/-- The places of the step functions among all host functions. -/
def stepFunction (strict : Bool) : Value :=
  .builtin (if strict then 3 else 4) none

def codes (arguments : List Value) : Act (List Value) := do
  let s ← textArgument 1 arguments
  if isContinuation (s.byteAt 0) then badArgument 1 "invalid UTF-8 code"
  return [stepFunction (!(arguments.getD 1 .nil).isTrue), .text s, .ofNat 0]

def all : List Builtin :=
  [.plain "utf8.char" char, .plain "utf8.codepoint" codePoint, .plain "utf8.codes" codes,
    .plain "utf8.len" length, .plain "utf8.offset" offset]

/-- A pattern that matches one character. -/
def characterPattern : Bytes :=
  Bytes.ofList ([91, 0, 45, 0x7F, 0xC2, 45, 0xFD, 93, 91, 0x80, 45, 0xBF, 93, 42])

end Multisample.Script.Builtins.Unicode
