import Multisample.Script.Syntax

/-!
# Tokens of scripts

A script is cut into words, names, texts and numbers, blanks and comments left
out.  A place where no token can be read becomes a token of its own, so that a
reader that stops earlier never hears of it.
-/

namespace Multisample.Script

inductive Token where
  /-- A reserved word, an operator or a bracket. -/
  | word (text : String)
  | name (text : String)
  | text (b : Bytes)
  | number (n : Number)
  | stop
  | bad (message : String)
deriving Inhabited

/-- A token and the line that it ends on. -/
structure Lexeme where
  token : Token
  line : Nat
deriving Inhabited

namespace Token

/-- How a message shows a token. -/
def display : Token → String
  | word s | name s => s!"'{s}'"
  | text b => s!"'{b.display}'"
  | number n => s!"'{n.text}'"
  | stop => "<eof>"
  | bad message => message

end Token

namespace Lexer

def reserved : List String :=
  ["and", "break", "do", "else", "elseif", "end", "false", "for", "function", "goto", "if", "in",
    "local", "nil", "not", "or", "repeat", "return", "then", "true", "until", "while"]

/-- Operators and brackets, longer ones before those that they begin with. -/
def symbols : List String :=
  ["...", "..", "==", "~=", "<=", ">=", "//", "::", "<<", ">>", "+", "-", "*", "/", "%", "^", "#",
    "&", "~", "|", "<", ">", "=", "(", ")", "\x7b", "\x7d", "[", "]", ";", ":", ",", "."]

def isNameStart (c : UInt8) : Bool := Bytes.isLetter c || c == 95

def isNamePart (c : UInt8) : Bool := Bytes.isAlphanumeric c || c == 95

def isLineEnd (c : UInt8) : Bool := c == 10 || c == 13

/-- What follows a line end, which two different characters may form together. -/
def skipLineEnd : List UInt8 → List UInt8
  | a :: b :: rest => if isLineEnd b && a != b then rest else b :: rest
  | cs => cs.drop 1

/-- What is left of a text after one of its parts, if it starts with it. -/
def after? : List UInt8 → List UInt8 → Option (List UInt8)
  | [], cs => some cs
  | _ :: _, [] => none
  | p :: ps, c :: cs => if p == c then after? ps cs else none

/-- The level of a long bracket that opens or closes with `bracket`, and what follows it. -/
def longBracket? (bracket : UInt8) : List UInt8 → Option (Nat × List UInt8)
  | [] => none
  | c :: cs =>
    if c != bracket then none
    else
      let marks := cs.takeWhile (· == 61)
      match cs.drop marks.length with
      | d :: rest => if d == bracket then some (marks.length, rest) else none
      | [] => none

/-- The text up to a closing long bracket, the line it ends on, and what follows. -/
def longText (level : Nat) : Nat → List UInt8 → Nat → List UInt8 → Option (List UInt8 × Nat × List UInt8)
  | 0, _, _, _ => none
  | _ + 1, _, _, [] => none
  | fuel + 1, done, line, c :: cs =>
    match longBracket? 93 (c :: cs) with
    | some (n, rest) =>
      if n == level then some (done.reverse, line, rest) else longText level fuel (c :: done) line cs
    | none =>
      if isLineEnd c then longText level fuel (10 :: done) (line + 1) (skipLineEnd (c :: cs))
      else longText level fuel (c :: done) line cs

/-- A long text after its opening bracket; a line end right behind the bracket is dropped. -/
def readLong (level line : Nat) (cs : List UInt8) : Option (List UInt8 × Nat × List UInt8) :=
  match cs with
  | c :: _ =>
    if isLineEnd c then longText level (cs.length + 1) [] (line + 1) (skipLineEnd cs)
    else longText level (cs.length + 1) [] line cs
  | [] => none

/-- The bytes of a code point in the extended form of up to six bytes. -/
def encodePoint (n : Nat) : List UInt8 :=
  let tail (n : Nat) : UInt8 := UInt8.ofNat (0x80 + n % 64)
  if n < 0x80 then [UInt8.ofNat n]
  else if n < 0x800 then [UInt8.ofNat (0xC0 + n / 64), tail n]
  else if n < 0x10000 then [UInt8.ofNat (0xE0 + n / 4096), tail (n / 64), tail n]
  else if n < 0x200000 then
    [UInt8.ofNat (0xF0 + n / 262144), tail (n / 4096), tail (n / 64), tail n]
  else if n < 0x4000000 then
    [UInt8.ofNat (0xF8 + n / 16777216), tail (n / 262144), tail (n / 4096), tail (n / 64), tail n]
  else
    [UInt8.ofNat (0xFC + n / 1073741824), tail (n / 16777216), tail (n / 262144), tail (n / 4096),
      tail (n / 64), tail n]

def readHexNumber (cs : List UInt8) : Nat :=
  cs.foldl (fun n c => 16 * n + (Bytes.digitValue? c).getD 0) 0

/-- What a backslash and what follows it stand for: bytes, lines passed, and the rest. -/
def readEscape (cs : List UInt8) : Except String (List UInt8 × Nat × List UInt8) :=
  match cs with
  | [] => .error "unfinished string"
  | c :: rest =>
    match c.toNat with
    | 97 => .ok ([7], 0, rest)
    | 98 => .ok ([8], 0, rest)
    | 102 => .ok ([12], 0, rest)
    | 110 => .ok ([10], 0, rest)
    | 114 => .ok ([13], 0, rest)
    | 116 => .ok ([9], 0, rest)
    | 118 => .ok ([11], 0, rest)
    | 120 =>
      let digits := rest.take 2
      if digits.length == 2 && digits.all Bytes.isHexDigit then
        .ok ([UInt8.ofNat (readHexNumber digits)], 0, rest.drop 2)
      else .error "hexadecimal digit expected"
    | 122 =>
      let blanks := rest.takeWhile Bytes.isBlank
      let lines := countLines (blanks.length + 1) blanks
      .ok ([], lines, rest.drop blanks.length)
    | 117 =>
      match rest with
      | 123 :: more =>
        let digits := more.takeWhile Bytes.isHexDigit
        if digits.isEmpty then .error "hexadecimal digit expected"
        else if 1 <<< 31 ≤ readHexNumber digits then .error "UTF-8 value too large"
        else
          match more.drop digits.length with
          | 125 :: rest => .ok (encodePoint (readHexNumber digits), 0, rest)
          | _ => .error "missing '\x7d' in \\u\x7bxxxx\x7d"
      | _ => .error "missing '\x7b' in \\u\x7bxxxx\x7d"
    | _ =>
      if isLineEnd c then .ok ([10], 1, skipLineEnd cs)
      else if c == 92 || c == 34 || c == 39 then .ok ([c], 0, rest)
      else if Bytes.isDigit c then
        let digits := (cs.take 3).takeWhile Bytes.isDigit
        let n : Nat := digits.foldl (fun n d => 10 * n + (d.toNat - 48)) 0
        if 255 < n then .error "decimal escape too large"
        else .ok ([UInt8.ofNat n], 0, cs.drop digits.length)
      else .error "invalid escape sequence"
where
  /-- How many line ends there are among blanks. -/
  countLines : Nat → List UInt8 → Nat
    | 0, _ => 0
    | _ + 1, [] => 0
    | fuel + 1, c :: cs =>
      if isLineEnd c then countLines fuel (skipLineEnd (c :: cs)) + 1 else countLines fuel cs

/-- The text up to the closing quote, the line it ends on, and what follows. -/
def readQuoted (quote : UInt8) :
    Nat → List UInt8 → Nat → List UInt8 → Except String (List UInt8 × Nat × List UInt8)
  | 0, _, _, _ => .error "unfinished string"
  | _ + 1, _, _, [] => .error "unfinished string"
  | fuel + 1, done, line, c :: cs =>
    if c == quote then .ok (done.reverse, line, cs)
    else if isLineEnd c then .error "unfinished string"
    else if c == 92 then
      match readEscape cs with
      | .error message => .error message
      | .ok (bytes, lines, rest) =>
        readQuoted quote fuel (bytes.reverse ++ done) (line + lines) rest
    else readQuoted quote fuel (c :: done) line cs

/-- Everything that looks like part of a number: digits, points, and signs after an exponent. -/
def numeral (isExponent : UInt8 → Bool) : Nat → List UInt8 → List UInt8
  | 0, _ => []
  | _ + 1, [] => []
  | fuel + 1, c :: cs =>
    if isExponent c then
      match cs with
      | d :: rest =>
        if d == 43 || d == 45 then c :: d :: numeral isExponent fuel rest
        else c :: numeral isExponent fuel cs
      | [] => [c]
    else if Bytes.isHexDigit c || c == 46 then c :: numeral isExponent fuel cs
    else if isNamePart c then [c]
    else []

/-- A number and what follows it. -/
def readNumeral (cs : List UInt8) : Token × List UInt8 :=
  let isHex := match cs with
    | 48 :: c :: _ => c == 120 || c == 88
    | _ => false
  let start := if isHex then cs.take 2 else []
  let isExponent (c : UInt8) : Bool :=
    if isHex then c == 112 || c == 80 else c == 101 || c == 69
  let text := start ++ numeral isExponent (cs.length + 1) (cs.drop start.length)
  let token := match Number.read? (Bytes.ofList text) with
    | some n => Token.number n
    | none => .bad s!"malformed number near '{(Bytes.ofList text).display}'"
  (token, cs.drop text.length)

/-- What follows a comment and the line it is on; a long comment may not end. -/
def skipComment (line : Nat) (cs : List UInt8) : Option (Nat × List UInt8) :=
  match longBracket? 91 cs with
  | some (level, rest) => (readLong level line rest).map fun (_, line, rest) => (line, rest)
  | none => some (line, cs.dropWhile (!isLineEnd ·))

/-- An operator or bracket and what follows it. -/
def readSymbol (cs : List UInt8) : Token × List UInt8 :=
  match symbols.findSome? fun s => (after? s.toUTF8.toList cs).map ((s, ·)) with
  | some (s, rest) => (.word s, rest)
  | none => (.bad s!"unexpected symbol near '{(Bytes.ofList (cs.take 1)).display}'", cs.drop 1)

/-- A text in quotes and what follows it. -/
def readText (quote : UInt8) (line : Nat) (cs : List UInt8) : Lexeme × Nat × List UInt8 :=
  match readQuoted quote (cs.length + 1) [] line cs with
  | .ok (bytes, line, rest) => (⟨.text (Bytes.ofList bytes), line⟩, line, rest)
  | .error message => (⟨.bad message, line⟩, line, [])

/-- Reads on from a line; `done` holds the tokens so far, the last one first. -/
def tokens : Nat → List Lexeme → Nat → List UInt8 → List Lexeme
  | 0, done, line, _ => (⟨.stop, line⟩ :: done).reverse
  | _ + 1, done, line, [] => (⟨.stop, line⟩ :: done).reverse
  | fuel + 1, done, line, c :: cs =>
    if isLineEnd c then tokens fuel done (line + 1) (skipLineEnd (c :: cs))
    else if Bytes.isBlank c then tokens fuel done line cs
    else if c == 45 && cs.head? == some 45 then
      match skipComment line (cs.drop 1) with
      | some (line, rest) => tokens fuel done line rest
      | none => (⟨.bad "unfinished long comment", line⟩ :: done).reverse
    else if isNameStart c then
      let name := (c :: cs).takeWhile isNamePart
      let text := (Bytes.ofList name).display
      let token := if reserved.contains text then Token.word text else .name text
      tokens fuel (⟨token, line⟩ :: done) line ((c :: cs).drop name.length)
    else if Bytes.isDigit c || (c == 46 && cs.head?.any Bytes.isDigit) then
      let (token, rest) := readNumeral (c :: cs)
      tokens fuel (⟨token, line⟩ :: done) line rest
    else if c == 34 || c == 39 then
      let (lexeme, line, rest) := readText c line cs
      tokens fuel (lexeme :: done) line rest
    else
      match longBracket? 91 (c :: cs) with
      | some (level, rest) =>
        match readLong level line rest with
        | some (bytes, line, rest) =>
          tokens fuel (⟨.text (Bytes.ofList bytes), line⟩ :: done) line rest
        | none => (⟨.bad "unfinished long string", line⟩ :: done).reverse
      | none =>
        let (token, rest) := readSymbol (c :: cs)
        tokens fuel (⟨token, line⟩ :: done) line rest

end Lexer

/-- The tokens of a script. -/
def tokenize (script : Bytes) : List Lexeme :=
  Lexer.tokens (script.size + 1) [] 1 script.toList

end Multisample.Script
