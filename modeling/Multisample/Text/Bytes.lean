/-!
# Byte strings

Texts of scripts and files are rows of bytes without an encoding.  They are
compared byte by byte, a shorter one before what extends it.
-/

namespace Multisample

abbrev Bytes := ByteArray

namespace Bytes

def ofString (text : String) : Bytes :=
  text.toUTF8

/-- The text that bytes stand for, if they are well formed. -/
def toString? (b : Bytes) : Option String :=
  String.fromUTF8? b

/-- How many bytes a character takes by its first byte, with the range of the second one. -/
def leadingByte? (c : UInt8) : Option (Nat × UInt8 × UInt8) :=
  if c < 0x80 then some (1, 0x80, 0xBF)
  else if c < 0xC2 then none
  else if c < 0xE0 then some (2, 0x80, 0xBF)
  else if c == 0xE0 then some (3, 0xA0, 0xBF)
  else if c == 0xED then some (3, 0x80, 0x9F)
  else if c < 0xF0 then some (3, 0x80, 0xBF)
  else if c == 0xF0 then some (4, 0x90, 0xBF)
  else if c < 0xF4 then some (4, 0x80, 0xBF)
  else if c == 0xF4 then some (4, 0x80, 0x8F)
  else none

/-- How many of the first bytes belong to one character, and whether it is complete. -/
def characterLength (c : UInt8) (rest : List UInt8) : Nat × Bool :=
  match leadingByte? c with
  | none => (1, false)
  | some (count, low, high) =>
    match rest with
    | second :: more =>
      if count = 1 then (1, true)
      else if second < low || high < second then (1, false)
      else
        let tail := (more.take (count - 2)).takeWhile fun d => 0x80 ≤ d && d ≤ 0xBF
        (2 + tail.length, 2 + tail.length == count)
    | [] => (1, count = 1)

/-- The characters of a text behind those read so far, which stand in reverse; each piece that is
none shows as a replacement. -/
def characters : Nat → List Char → List UInt8 → List Char
  | 0, done, _ => done.reverse
  | _ + 1, done, [] => done.reverse
  | fuel + 1, done, c :: cs =>
    let (count, complete) := characterLength c cs
    let bytes := c :: cs.take (count - 1)
    let shown := if complete then (String.fromUTF8? ⟨bytes.toArray⟩).getD "" else "\ufffd"
    characters fuel (shown.toList.reverse ++ done) (cs.drop (count - 1))

/-- The text that bytes stand for, what is malformed shown as replacements. -/
def display (b : Bytes) : String :=
  match toString? b with
  | some text => text
  | none => String.ofList (characters (b.size + 1) [] b.toList)

/-- The byte at a position, zero past the end. -/
def byteAt (b : Bytes) (i : Nat) : UInt8 :=
  if h : i < b.size then b[i] else 0

def ofList (bytes : List UInt8) : Bytes :=
  ⟨bytes.toArray⟩

/-- Compares from a position on, at most so many bytes. -/
def compareFrom (a b : Bytes) : Nat → Nat → Ordering
  | 0, _ => .eq
  | fuel + 1, i =>
    if i < a.size then
      if i < b.size then
        if a.byteAt i = b.byteAt i then compareFrom a b fuel (i + 1)
        else if a.byteAt i < b.byteAt i then .lt else .gt
      else .gt
    else if i < b.size then .lt else .eq

def compare (a b : Bytes) : Ordering :=
  compareFrom a b (max a.size b.size) 0

def lt (a b : Bytes) : Bool :=
  compare a b == .lt

def le (a b : Bytes) : Bool :=
  compare a b != .gt

/-- Two copies of a text, four, eight, as far as the binary digits of a number ask. -/
def repeatGo (fuel : Nat) (b : Bytes) (n : Nat) : Bytes :=
  match fuel with
  | 0 => .empty
  | fuel + 1 =>
    if n = 0 then .empty
    else
      let half := repeatGo fuel b (n / 2)
      if n % 2 = 0 then half ++ half else half ++ half ++ b

/-- A text so many times over. -/
def times (b : Bytes) (n : Nat) : Bytes :=
  repeatGo (n + 1) b n

/-- Whether `part` stands at a position. -/
def matchesAt (b part : Bytes) (i : Nat) : Bool :=
  i + part.size ≤ b.size && (List.range part.size).all fun k => b.byteAt (i + k) == part.byteAt k

/-- The first position from `start` on where `part` stands. -/
def find? (b part : Bytes) (start : Nat) : Option Nat :=
  if b.size < part.size then none
  else (List.range' start (b.size - part.size + 1 - start)).find? fun i => matchesAt b part i

/-! ## Classes of bytes -/

def isDigit (c : UInt8) : Bool := 48 ≤ c && c ≤ 57

def isLower (c : UInt8) : Bool := 97 ≤ c && c ≤ 122

def isUpper (c : UInt8) : Bool := 65 ≤ c && c ≤ 90

def isLetter (c : UInt8) : Bool := isLower c || isUpper c

def isAlphanumeric (c : UInt8) : Bool := isLetter c || isDigit c

def isBlank (c : UInt8) : Bool := c == 32 || (9 ≤ c && c ≤ 13)

def isControl (c : UInt8) : Bool := c < 32 || c == 127

def isGraphic (c : UInt8) : Bool := 32 < c && c < 127

def isPunctuation (c : UInt8) : Bool := isGraphic c && !isAlphanumeric c

def toLower (c : UInt8) : UInt8 := if isUpper c then c + 32 else c

def toUpper (c : UInt8) : UInt8 := if isLower c then c - 32 else c

/-- The value of a digit in bases up to 36. -/
def digitValue? (c : UInt8) : Option Nat :=
  if isDigit c then some (c.toNat - 48)
  else if isLower c then some (c.toNat - 87)
  else if isUpper c then some (c.toNat - 55)
  else none

def isHexDigit (c : UInt8) : Bool :=
  (digitValue? c).any (· < 16)

/-- The text without blanks around it. -/
def trim (b : Bytes) : List UInt8 :=
  ((b.toList.dropWhile isBlank).reverse.dropWhile isBlank).reverse

end Bytes

end Multisample
