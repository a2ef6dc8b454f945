import Multisample.Script.Builtins.Arguments
import Multisample.Script.Format
import Multisample.Script.Pattern

/-!
# Functions on texts

Positions count from one; negative ones count from the end.  Searching,
replacing and going through matches share the matcher of patterns.
-/

namespace Multisample.Script.Builtins.Texts

open Act

/-- A start position as an offset from the beginning. -/
def startOffset (position : Int64) (size : Nat) : Nat :=
  let p := position.toInt
  if 0 < p then p.toNat - 1
  else if p = 0 then 0
  else size - p.natAbs

/-- An end position as the offset behind it. -/
def endOffset (position : Int64) (size : Nat) : Nat :=
  let p := position.toInt
  if 0 ≤ p then min p.toNat size else size + 1 - min p.natAbs (size + 1)

def result (b : Bytes) : Act (List Value) := do
  allocate (24 + b.size)
  return [.text b]

def mapBytes (f : UInt8 → UInt8) (arguments : List Value) : Act (List Value) := do
  let s ← textArgument 1 arguments
  result (Bytes.ofList (s.toList.map f))

def reverse (arguments : List Value) : Act (List Value) := do
  let s ← textArgument 1 arguments
  result (Bytes.ofList s.toList.reverse)

def length (arguments : List Value) : Act (List Value) := do
  return [.ofNat (← textArgument 1 arguments).size]

def sub (arguments : List Value) : Act (List Value) := do
  let s ← textArgument 1 arguments
  let start := startOffset (← intArgument 2 arguments) s.size
  let stop := endOffset (← optional 3 arguments (-1) intArgument) s.size
  result (s.extract start stop)

def byte (arguments : List Value) : Act (List Value) := do
  let s ← textArgument 1 arguments
  let first ← optional 2 arguments 1 intArgument
  let start := startOffset first s.size
  let stop := endOffset (← optional 3 arguments first intArgument) s.size
  return (s.extract start stop).toList.map fun c => .ofNat c.toNat

def char (arguments : List Value) : Act (List Value) := do
  let bytes ← (List.range arguments.length).mapM fun i => do
    let n ← intArgument (i + 1) arguments
    if n < 0 || 255 < n then badArgument (i + 1) "value out of range"
    else return UInt8.ofNat n.toInt.toNat
  result (Bytes.ofList bytes)

/-- The longest text that can be asked for. -/
def maxSize : Nat := (1 <<< 63) - 1

def repeated (arguments : List Value) : Act (List Value) := do
  let s ← textArgument 1 arguments
  let n ← intArgument 2 arguments
  let between ← optional 3 arguments .empty textArgument
  if n ≤ 0 then return [.text .empty]
  else
    let count := n.toInt.toNat
    let total := count * s.size + (count - 1) * between.size
    if maxSize ≤ total then blame "resulting string too large"
    else
      reserve (2 * total)
      allocate (24 + total)
      return [.text (Bytes.times (s ++ between) (count - 1) ++ s)]

/-! ## Matching -/

def ofMatching {α : Type} (r : Except String α) : Act α :=
  match r with
  | .ok a => return a
  | .error message => blame message

/-- The value of a capture; without captures the first one is the whole match. -/
def captureValue (s : Bytes) (start : Nat) (m : Pattern.Match) (i : Nat) : Except String Value :=
  match m.captures[i]? with
  | some ⟨first, .length n⟩ => .ok (.text (s.extract first (first + n)))
  | some ⟨first, .position⟩ => .ok (.ofNat (first + 1))
  | some ⟨_, .unclosed⟩ => .error "unfinished capture"
  | none =>
    if i = 0 then .ok (.text (s.extract start m.stop))
    else .error s!"invalid capture index %{i + 1}"

/-- The values of all captures, or of the whole match if there are none. -/
def captureValues (s : Bytes) (start : Nat) (m : Pattern.Match) : Except String (List Value) :=
  (List.range (max m.captures.length 1)).mapM (captureValue s start m)

/-- Searches for a pattern; `find` asks for the place of the match too. -/
def search (find : Bool) (arguments : List Value) : Act (List Value) := do
  let s ← textArgument 1 arguments
  let p ← textArgument 2 arguments
  let start := startOffset (← optional 3 arguments 1 intArgument) s.size
  if s.size < start then return [.nil]
  else if find && ((arguments.getD 3 .nil).isTrue || Pattern.isPlain p) then
    match Bytes.find? s p start with
    | some i => return [.ofNat (i + 1), .ofNat (i + p.size)]
    | none => return [.nil]
  else
    let (anchored, p) := Pattern.splitAnchor p
    match ← ofMatching (Pattern.searchFrom s p anchored (s.size + 2) start) with
    | none => return [.nil]
    | some (start, m) =>
      if find then
        let captures ← ofMatching ((List.range m.captures.length).mapM (captureValue s start m))
        return .ofNat (start + 1) :: .ofNat m.stop :: captures
      else ofMatching (captureValues s start m)

/-- Goes on to the next match; a table keeps where that is and where the last one ended. -/
def nextMatch (state : Nat) : Act (List Value) := do
  let s ← getRaw state (.ofNat 1)
  let p ← getRaw state (.ofNat 2)
  let start ← getRaw state (.ofNat 3)
  let last ← getRaw state (.ofNat 4)
  match s, p, start, last with
  | .text s, .text p, .number (.int start), .number (.int last) =>
    match ← ofMatching (Pattern.searchAfter s p last.toInt (s.size + 2) start.toInt.toNat) with
    | none => return [.nil]
    | some (start, m) =>
      setRaw state (.ofNat 3) (.ofNat m.stop)
      setRaw state (.ofNat 4) (.ofNat m.stop)
      ofMatching (captureValues s start m)
  | _, _, _, _ => return [.nil]

/-- The place of the function that goes through matches among all host functions. -/
def matchFunction (state : Nat) : Value :=
  .builtin 2 (some state)

def allMatches (arguments : List Value) : Act (List Value) := do
  let s ← textArgument 1 arguments
  let p ← textArgument 2 arguments
  let start := startOffset (← optional 3 arguments 1 intArgument) s.size
  let state ← newTable
  setRaw state (.ofNat 1) (.text s)
  setRaw state (.ofNat 2) (.text p)
  setRaw state (.ofNat 3) (.ofNat (min start (s.size + 1)))
  setRaw state (.ofNat 4) (.int (-1))
  return [matchFunction state]

/-! ## Replacing -/

/-- The replacement of a match by a text, in which a mark and a digit stand for a capture. -/
def expand (s : Bytes) (start : Nat) (m : Pattern.Match) :
    List UInt8 → List Bytes → Except String (List Bytes)
  | [], done => .ok done
  | 37 :: rest, done =>
    match rest with
    | [] => .error "invalid use of '%' in replacement string"
    | c :: rest =>
      if c == 37 then expand s start m rest (Bytes.ofList [37] :: done)
      else if c == 48 then expand s start m rest (s.extract start m.stop :: done)
      else if Bytes.isDigit c then do
        let v ← captureValue s start m (c.toNat - 49)
        expand s start m rest (v.toText?.getD .empty :: done)
      else .error "invalid use of '%' in replacement string"
  | c :: rest, done => expand s start m rest (Bytes.ofList [c] :: done)

/-- What replaces a match; nothing or false leaves it as it is. -/
def replacement (s : Bytes) (start : Nat) (m : Pattern.Match) (substitute : Value) : Act (List Bytes) := do
  let whole := s.extract start m.stop
  match substitute with
  | .text r => ofMatching (expand s start m r.toList [])
  | .number n => ofMatching (expand s start m n.text.toUTF8.toList [])
  | .table _ => do
    let key ← ofMatching (captureValue s start m 0)
    settle whole (← index substitute key none)
  | f => do settle whole (← callOne f (← ofMatching (captureValues s start m)))
where
  settle (whole : Bytes) (v : Value) : Act (List Bytes) :=
    if v.isTrue then
      match v.toText? with
      | some b => return [b]
      | none => do blame s!"invalid replacement value (a {← typeName v})"
    else return [whole]

structure Replacing where
  /-- Where to go on. -/
  start : Nat := 0
  last : Option Nat := none
  count : Nat := 0
  /-- The pieces of the result, the last one first. -/
  done : List Bytes := []

/-- Joins pieces that stand in reverse. -/
def join (pieces : List Bytes) : Bytes :=
  pieces.reverse.foldl (· ++ ·) .empty

def replace (arguments : List Value) : Act (List Value) := do
  let s ← textArgument 1 arguments
  let p ← textArgument 2 arguments
  let substitute := arguments.getD 2 .nil
  match substitute with
  | .text _ | .number _ | .table _ | .closure .. | .builtin .. => pure ()
  | _ => wrongType 3 arguments "string/function/table"
  let most ← optional 4 arguments (Int64.ofNat (s.size + 1)) intArgument
  let (anchored, p) := Pattern.splitAnchor p
  let finish (r : Replacing) : Act (Replacing ⊕ Replacing) :=
    return .inr { r with done := s.extract r.start s.size :: r.done }
  let pass (r : Replacing) : Act (Replacing ⊕ Replacing) :=
    if r.start < s.size then
      let r := { r with start := r.start + 1, done := s.extract r.start (r.start + 1) :: r.done }
      if anchored then finish r else return .inl r
    else finish r
  let round (r : Replacing) : Act (Replacing ⊕ Replacing) := do
    if most.toInt ≤ r.count then finish r
    else
      match ← ofMatching (Pattern.matchAt s p r.start) with
      | some m =>
        if r.last = some m.stop then pass r
        else
          let pieces ← replacement s r.start m substitute
          let r := ⟨m.stop, some m.stop, r.count + 1, pieces ++ r.done⟩
          if anchored then finish r else return .inl r
      | none => pass r
  let r ← rounds round {}
  let total := r.done.foldl (fun size piece => size + piece.size) 0
  reserve (2 * total)
  allocate (24 + total)
  return [.text (join r.done), .ofNat r.count]

/-! ## Formatting -/

/-- An argument written as a directive says. -/
def formatOne (d : Format.Directive) (position : Nat) (arguments : List Value) : Act Bytes := do
  match d.letter with
  | 'c' =>
    let n ← intArgument position arguments
    return Format.padBytes d (Bytes.ofList [UInt8.ofNat (n.toUInt64.toNat % 256)])
  | 'd' | 'i' => return Bytes.ofString (Format.decimal d (← intArgument position arguments))
  | 'x' | 'X' | 'o' => return Bytes.ofString (Format.unsigned d (← intArgument position arguments))
  | 'p' =>
    let v ← anyArgument position arguments
    let text := match v with
      | .table _ | .closure .. | .builtin .. | .handle _ | .failure _ => (objectText v "").toList.drop 2
      | _ => "(null)".toUTF8.toList
    return Format.padBytes d (Bytes.ofList text)
  | 'q' =>
    match ← anyArgument position arguments with
    | .text b => return Format.quoted b
    | .number (.float x) => return Bytes.ofString (Format.quotedFloat x)
    | .number (.int n) =>
      return Bytes.ofString (if n == Int64.minValue then "0x8000000000000000" else toString n.toInt)
    | .nil => return Bytes.ofString "nil"
    | .bool b => return Bytes.ofString (if b then "true" else "false")
    | _ => badArgument position "value has no literal form"
  | 's' =>
    let text ← toText (← anyArgument position arguments)
    if d.isBare then return text
    else if text.toList.contains 0 then badArgument position "string contains zeros"
    else
      match d.precision with
      | none => return Format.padBytes d text
      | some n => return Format.padBytes d (text.extract 0 n)
  | _ => return Bytes.ofString (Format.float d (← floatArgument position arguments))

/-- Fills arguments into a text at its directives. -/
def format (arguments : List Value) : Act (List Value) := do
  let pattern ← textArgument 1 arguments
  let total ← go (pattern.size + 1) (pattern.toList.map fun c => Char.ofNat c.toNat) 1 []
  result (join total)
where
  go : Nat → List Char → Nat → List Bytes → Act (List Bytes)
    | 0, _, _, done => return done
    | _ + 1, [], _, done => return done
    | fuel + 1, '%' :: '%' :: rest, position, done => do
      reserve 0
      go fuel rest position (Bytes.ofList [37] :: done)
    | fuel + 1, '%' :: rest, position, done => do
      reserve 0
      if arguments.length ≤ position then badArgument (position + 1) "no value"
      match Format.readDirective rest with
      | none => blame s!"invalid conversion '%{Format.refused rest}' to 'format'"
      | some (d, rest) =>
        let piece ← formatOne d (position + 1) arguments
        go fuel rest (position + 1) (piece :: done)
    | fuel + 1, cs, position, done => do
      reserve 0
      let plain := cs.takeWhile (· ≠ '%')
      go fuel (cs.drop plain.length) position
        (Bytes.ofList (plain.map fun c => UInt8.ofNat c.toNat) :: done)

def all : List Builtin :=
  [.plain "string.byte" byte, .plain "string.char" char,
    .plain "string.dump" fun _ => blame "unable to dump given function",
    .plain "string.find" (search true), .plain "string.format" format,
    .plain "string.gmatch" allMatches, .plain "string.gsub" replace, .plain "string.len" length,
    .plain "string.lower" (mapBytes Bytes.toLower), .plain "string.match" (search false),
    .plain "string.rep" repeated, .plain "string.reverse" reverse, .plain "string.sub" sub,
    .plain "string.upper" (mapBytes Bytes.toUpper)]

end Multisample.Script.Builtins.Texts
