import Multisample.Text.Bytes

/-!
# Patterns

A pattern is matched against a text from a position on, by backtracking.  Items
are single bytes or classes of bytes with an optional repetition, captures,
balanced pairs, frontiers, and references back to captures.
-/

namespace Multisample.Script.Pattern

/-- What a capture covers: bytes from a position on, a position alone, or it is still open. -/
inductive Extent where
  | length (n : Nat)
  | position
  | unclosed
deriving DecidableEq, Repr, Inhabited

structure Capture where
  start : Nat
  extent : Extent
deriving Repr, Inhabited

/-- The end of a match and its captures. -/
structure Match where
  stop : Nat
  captures : List Capture
deriving Repr, Inhabited

def maxCaptures : Nat := 32

/-- How deep matching may nest. -/
def maxNesting : Nat := 200

/-- Whether a byte is in the class of a letter; a capital letter is for all other bytes. -/
def inClass (c letter : UInt8) : Bool :=
  let member? : Option Bool :=
    match (Bytes.toLower letter).toNat with
    | 97 => some (Bytes.isLetter c)
    | 99 => some (Bytes.isControl c)
    | 100 => some (Bytes.isDigit c)
    | 103 => some (Bytes.isGraphic c)
    | 108 => some (Bytes.isLower c)
    | 112 => some (Bytes.isPunctuation c)
    | 115 => some (Bytes.isBlank c)
    | 117 => some (Bytes.isUpper c)
    | 119 => some (Bytes.isAlphanumeric c)
    | 120 => some (Bytes.isHexDigit c)
    | _ => none
  match member? with
  | some m => if Bytes.isUpper letter then !m else m
  | none => letter == c

/-- The position behind a set that starts after its bracket. -/
def setEnd (p : Bytes) : Nat → Nat → Except String Nat
  | 0, _ => .error "malformed pattern (missing ']')"
  | fuel + 1, i =>
    if p.size ≤ i then .error "malformed pattern (missing ']')"
    else
      let j := if p.byteAt i == 37 then i + 2 else i + 1
      if j < p.size && p.byteAt j == 93 then .ok (j + 1) else setEnd p fuel j

/-- The position behind a single item. -/
def itemEnd (p : Bytes) (i : Nat) : Except String Nat :=
  if p.byteAt i == 37 then
    if p.size ≤ i + 1 then .error "malformed pattern (ends with '%')" else .ok (i + 2)
  else if p.byteAt i == 91 then
    setEnd p (p.size + 1) (if p.byteAt (i + 1) == 94 then i + 2 else i + 1)
  else .ok (i + 1)

/-- Whether a byte is in the set whose members stand between two positions. -/
def inSet (p : Bytes) (c : UInt8) (last : Nat) : Nat → Nat → Bool
  | 0, _ => false
  | fuel + 1, i =>
    if last ≤ i then false
    else if p.byteAt i == 37 then inClass c (p.byteAt (i + 1)) || inSet p c last fuel (i + 2)
    else if p.byteAt (i + 1) == 45 && i + 2 < last then
      (p.byteAt i ≤ c && c ≤ p.byteAt (i + 2)) || inSet p c last fuel (i + 3)
    else p.byteAt i == c || inSet p c last fuel (i + 1)

/-- Whether a byte is in the set with brackets at two positions. -/
def inBrackets (p : Bytes) (c : UInt8) (first last : Nat) : Bool :=
  if p.byteAt (first + 1) == 94 then !inSet p c last (p.size + 1) (first + 2)
  else inSet p c last (p.size + 1) (first + 1)

/-- Whether the byte at a position is matched by the item between two positions. -/
def matchesItem (s p : Bytes) (pos i stop : Nat) : Bool :=
  pos < s.size &&
    let c := s.byteAt pos
    match (p.byteAt i).toNat with
    | 46 => true
    | 37 => inClass c (p.byteAt (i + 1))
    | 91 => inBrackets p c i (stop - 1)
    | _ => p.byteAt i == c

/-- How many bytes from a position on are matched by an item, each on its own. -/
def countItem (s p : Bytes) (i stop : Nat) : Nat → Nat → Nat
  | 0, _ => 0
  | fuel + 1, pos => if matchesItem s p pos i stop then countItem s p i stop fuel (pos + 1) + 1 else 0

/-- The position behind a balanced pair, from behind its opening byte on. -/
def balancedEnd (s : Bytes) (opening closing : UInt8) : Nat → Nat → Nat → Option Nat
  | 0, _, _ => none
  | fuel + 1, level, pos =>
    if s.size ≤ pos then none
    else if s.byteAt pos == closing then
      if level ≤ 1 then some (pos + 1) else balancedEnd s opening closing fuel (level - 1) (pos + 1)
    else if s.byteAt pos == opening then balancedEnd s opening closing fuel (level + 1) (pos + 1)
    else balancedEnd s opening closing fuel level (pos + 1)

/-- The first result among counts from `n` down to zero. -/
def tryDown (attempt : Nat → Except String (Option Match)) : Nat → Except String (Option Match)
  | 0 => attempt 0
  | n + 1 => do
    match ← attempt (n + 1) with
    | some m => return some m
    | none => tryDown attempt n

/-- The first result among longer and longer runs of an item. -/
def tryUp (s p : Bytes) (i stop : Nat) (attempt : Nat → Except String (Option Match)) :
    Nat → Nat → Except String (Option Match)
  | 0, _ => .ok none
  | fuel + 1, pos => do
    match ← attempt pos with
    | some m => return some m
    | none => if matchesItem s p pos i stop then tryUp s p i stop attempt fuel (pos + 1) else return none

/-- The last capture that is still open. -/
def lastOpen? (captures : List Capture) : Option Nat :=
  (captures.zipIdx.filter fun c => c.1.extent == .unclosed).getLast?.map (·.2)

def closeCapture (captures : List Capture) (index stop : Nat) : List Capture :=
  captures.modify index fun c => { c with extent := .length (stop - c.start) }

/-- The bytes of a closed capture that a digit refers to; a position has none. -/
def referred (s : Bytes) (captures : List Capture) (digit : UInt8) : Except String (Option Bytes) :=
  let capture? := if digit.toNat < 49 then none else captures[digit.toNat - 49]?
  match capture? with
  | some ⟨start, .length n⟩ => .ok (s.extract start (start + n))
  | some ⟨_, .position⟩ => .ok none
  | _ => .error s!"invalid capture index %{digit.toNat - 48}"

/-- Matches from a position of the text and one of the pattern on; `nesting` counts the levels that
are left. -/
def matchFrom (s p : Bytes) :
    Nat → Nat → Nat → Nat → List Capture → Except String (Option Match)
  | 0, _, _, _, _ => .error "pattern too complex"
  | _, 0, _, _, _ => .error "pattern too complex"
  | fuel + 1, nesting + 1, pos, i, captures =>
    if p.size ≤ i then .ok (some ⟨pos, captures⟩)
    else
      let c := p.byteAt i
      let next := p.byteAt (i + 1)
      if c == 40 then
        if maxCaptures ≤ captures.length then .error "too many captures"
        else if next == 41 then
          matchFrom s p fuel nesting pos (i + 2) (captures ++ [⟨pos, .position⟩])
        else matchFrom s p fuel nesting pos (i + 1) (captures ++ [⟨pos, .unclosed⟩])
      else if c == 41 then
        match lastOpen? captures with
        | none => .error "invalid pattern capture"
        | some index => matchFrom s p fuel nesting pos (i + 1) (closeCapture captures index pos)
      else if c == 36 && i + 1 = p.size then
        .ok (if pos = s.size then some ⟨pos, captures⟩ else none)
      else if c == 37 && next == 98 then
        if p.size ≤ i + 3 then .error "malformed pattern (missing arguments to '%b')"
        else if s.size ≤ pos || s.byteAt pos != p.byteAt (i + 2) then .ok none
        else
          match balancedEnd s (p.byteAt (i + 2)) (p.byteAt (i + 3)) (s.size + 1) 1 (pos + 1) with
          | some stop => matchFrom s p fuel (nesting + 1) stop (i + 4) captures
          | none => .ok none
      else if c == 37 && next == 102 then
        if p.byteAt (i + 2) != 91 then .error "missing '[' after '%f' in pattern"
        else do
          let stop ← itemEnd p (i + 2)
          let before := if pos = 0 then 0 else s.byteAt (pos - 1)
          if !inBrackets p before (i + 2) (stop - 1) && inBrackets p (s.byteAt pos) (i + 2) (stop - 1)
          then matchFrom s p fuel (nesting + 1) pos stop captures
          else return none
      else if c == 37 && Bytes.isDigit next then do
        match ← referred s captures next with
        | some text =>
          if Bytes.matchesAt s text pos then
            matchFrom s p fuel (nesting + 1) (pos + text.size) (i + 2) captures
          else return none
        | none => return none
      else do
        let stop ← itemEnd p i
        match (p.byteAt stop).toNat, decide (stop < p.size) with
        | 63, true =>
          if matchesItem s p pos i stop then
            match ← matchFrom s p fuel nesting (pos + 1) (stop + 1) captures with
            | some m => return some m
            | none => matchFrom s p fuel (nesting + 1) pos (stop + 1) captures
          else matchFrom s p fuel (nesting + 1) pos (stop + 1) captures
        | 43, true =>
          if matchesItem s p pos i stop then
            tryDown (fun n => matchFrom s p fuel nesting (pos + 1 + n) (stop + 1) captures)
              (countItem s p i stop (s.size + 1) (pos + 1))
          else return none
        | 42, true =>
          tryDown (fun n => matchFrom s p fuel nesting (pos + n) (stop + 1) captures)
            (countItem s p i stop (s.size + 1) pos)
        | 45, true =>
          tryUp s p i stop (fun n => matchFrom s p fuel nesting n (stop + 1) captures)
            (s.size + 1) pos
        | _, _ =>
          if matchesItem s p pos i stop then matchFrom s p fuel (nesting + 1) (pos + 1) stop captures
          else return none

/-- Matches a pattern, without its anchor, at one position. -/
def matchAt (s p : Bytes) (start : Nat) : Except String (Option Match) := do
  match ← matchFrom s p (p.size + 2) maxNesting start 0 [] with
  | none => return none
  | some m =>
    if m.captures.any (·.extent == .unclosed) then throw "unfinished capture" else return some m

/-- Whether a pattern is tied to where matching starts, and what it is without that mark. -/
def splitAnchor (p : Bytes) : Bool × Bytes :=
  if p.byteAt 0 == 94 then (true, p.extract 1 p.size) else (false, p)

/-- The first match from a position on, with its start. -/
def searchFrom (s p : Bytes) (anchored : Bool) : Nat → Nat → Except String (Option (Nat × Match))
  | 0, _ => .ok none
  | fuel + 1, start => do
    match ← matchAt s p start with
    | some m => return some (start, m)
    | none =>
      if anchored || s.size ≤ start then return none else searchFrom s p anchored fuel (start + 1)

/-- The first match from a position on that does not end where the last one did. -/
def searchAfter (s p : Bytes) (last : Int) : Nat → Nat → Except String (Option (Nat × Match))
  | 0, _ => .ok none
  | fuel + 1, start => do
    if s.size < start then return none
    else
      match ← matchAt s p start with
      | some m =>
        if (m.stop : Int) = last then searchAfter s p last fuel (start + 1) else return some (start, m)
      | none => searchAfter s p last fuel (start + 1)

/-- Whether a text has no byte with a meaning of its own. -/
def isPlain (p : Bytes) : Bool :=
  !p.toList.any fun c => "^$*+?.([%-".toUTF8.toList.contains c

end Multisample.Script.Pattern
