import Multisample.Settings.Document

/-!
# Reading YAML

The part of YAML that settings are written in: block and flow collections,
plain and quoted scalars, comments, and the markers of documents.  Anchors,
tags and block scalars are refused.
-/

namespace Multisample.Yaml

/-- Whether a value may end before these characters. -/
def atBlank : List Char → Bool
  | [] => true
  | c :: _ => c = ' ' || c = '\t' || c = '\n'

def skipBlanks (cs : List Char) : List Char :=
  cs.dropWhile fun c => c = ' ' || c = '\t'

/-! ## Scalars -/

/-- The number that a row of digits in some base stands for, within 63 bits. -/
def digitsInBase? (base : Nat) (cs : List Char) : Option Int := do
  let value (c : Char) : Nat :=
    if c.isDigit then c.toNat - '0'.toNat
    else if 'a' ≤ c && c ≤ 'f' then c.toNat - 'a'.toNat + 10
    else if 'A' ≤ c && c ≤ 'F' then c.toNat - 'A'.toNat + 10
    else base
  guard (!cs.isEmpty && cs.all fun c => value c < base)
  let n := cs.foldl (fun n c => base * n + value c) 0
  if n < 1 <<< 63 then some n else none

/-- A float in the notation of the format: words begin with a point, digits are needed otherwise. -/
def real? (text : String) : Option Float :=
  match text with
  | ".inf" | ".Inf" | ".INF" | "+.inf" | "+.Inf" | "+.INF" => some (1 / 0)
  | "-.inf" | "-.Inf" | "-.INF" => some (-1 / 0)
  | ".nan" | ".NaN" | ".NAN" => some (0 / 0)
  | _ => if text.toList.any Char.isDigit then readFloat? text else none

/-- What a plain scalar means. -/
def plain (text : String) : Document :=
  let based := match text.toList with
    | '0' :: 'x' :: digits => digitsInBase? 16 digits
    | '0' :: 'o' :: digits => digitsInBase? 8 digits
    | _ => none
  match based with
  | some n => .whole n
  | none =>
    match text with
    | "" | "~" | "null" => .null
    | "true" => .flag true
    | "false" => .flag false
    | _ =>
      match (readInt? text).filter Document.fitsWhole with
      | some n => .whole n
      | none =>
        match real? text with
        | some x => .real x
        | none => .text text

/-- Reads a character by its code in so many digits. -/
def codePoint? (count : Nat) (cs : List Char) : Option (Char × List Char) := do
  guard (count ≤ cs.length)
  let n ← digitsInBase? 16 (cs.take count)
  guard n.toNat.isValidChar
  return (Char.ofNat n.toNat, cs.drop count)

/-- What stands for a character after a backslash. -/
def escape? : List Char → Option (Char × List Char)
  | [] => none
  | c :: rest =>
    match c with
    | '0' => some ('\x00', rest)
    | 'a' => some ('\x07', rest)
    | 'b' => some ('\x08', rest)
    | 't' | '\t' => some ('\t', rest)
    | 'n' => some ('\n', rest)
    | 'v' => some ('\x0b', rest)
    | 'f' => some ('\x0c', rest)
    | 'r' => some ('\r', rest)
    | 'e' => some ('\x1b', rest)
    | ' ' | '"' | '/' | '\\' => some (c, rest)
    | 'N' => some ('\u0085', rest)
    | '_' => some ('\u00a0', rest)
    | 'L' => some ('\u2028', rest)
    | 'P' => some ('\u2029', rest)
    | 'x' => codePoint? 2 rest
    | 'u' => codePoint? 4 rest
    | 'U' => codePoint? 8 rest
    | _ => none

/-- Reads up to the closing quote; line ends count as single spaces. -/
def quoted? (quote : Char) : Nat → List Char → List Char → Option (String × List Char)
  | 0, _, _ => none
  | _, _, [] => none
  | fuel + 1, acc, c :: rest =>
    if c = quote then
      match quote, rest with
      | '\'', '\'' :: more => quoted? quote fuel ('\'' :: acc) more
      | _, _ => some (String.ofList acc.reverse, rest)
    else if c = '\\' && quote = '"' then
      match escape? rest with
      | none => none
      | some (e, more) => quoted? quote fuel (e :: acc) more
    else quoted? quote fuel ((if c = '\n' then ' ' else c) :: acc) rest

/-- Reads a quoted scalar, if one begins here. -/
def quotedScalar? : List Char → Option (String × List Char)
  | '"' :: rest => quoted? '"' (rest.length + 1) [] rest
  | '\'' :: rest => quoted? '\'' (rest.length + 1) [] rest
  | _ => none

def isQuote (cs : List Char) : Bool :=
  cs.head? == some '"' || cs.head? == some '\''

/-- Whether a plain scalar may begin here. -/
def startsPlain : List Char → Bool
  | [] => false
  | c :: rest =>
    if c = '-' || c = '?' || c = ':' then !atBlank rest
    else c ∉ [',', '[', ']', '{', '}', '#', '&', '*', '!', '|', '>', '\'', '"', '%', '@', '\x60']

/-! ## Flow collections -/

/-- Drops blanks, line ends and comments. -/
def skipFlow : Nat → List Char → List Char
  | 0, cs => cs
  | fuel + 1, cs =>
    match cs with
    | ' ' :: rest | '\t' :: rest | '\n' :: rest =>
      match rest with
      | '#' :: more => skipFlow fuel (more.dropWhile (· ≠ '\n'))
      | _ => skipFlow fuel rest
    | _ => cs

def isFlowMark (c : Char) : Bool :=
  c ∈ [',', '[', ']', '{', '}']

/-- Splits off a plain scalar inside a flow collection. -/
def flowPlain : List Char → List Char × List Char
  | [] => ([], [])
  | c :: rest =>
    let ends := isFlowMark c
      || (c = ':' && (atBlank rest || (rest.head?.map isFlowMark).getD false))
      || ((c = ' ' || c = '\n') && rest.head? == some '#')
    if ends then ([], c :: rest)
    else
      let (text, rest) := flowPlain rest
      ((if c = '\n' then ' ' else c) :: text, rest)

def trimmed (cs : List Char) : String :=
  String.ofList ((cs.reverse.dropWhile (· = ' ')).reverse)

/-- Reads the text of a scalar that may be quoted. -/
def flowText? (cs : List Char) : Option (Bool × String × List Char) :=
  if isQuote cs then (quotedScalar? cs).map fun (s, rest) => (true, s, rest)
  else if startsPlain cs then
    let (text, rest) := flowPlain cs
    some (false, trimmed text, rest)
  else none

mutual

/-- Reads a value inside a flow collection, or a flow collection itself. -/
def flowValue? : Nat → List Char → Option (Document × List Char)
  | 0, _ => none
  | fuel + 1, cs =>
    match cs with
    | '[' :: rest => flowItems? fuel [] (skipFlow fuel (' ' :: rest))
    | '{' :: rest => flowEntries? fuel [] (skipFlow fuel (' ' :: rest))
    | _ =>
      match flowText? cs with
      | none => none
      | some (isQuoted, s, rest) => some (if isQuoted then .text s else plain s, rest)

def flowItems? : Nat → List Document → List Char → Option (Document × List Char)
  | 0, _, _ => none
  | fuel + 1, acc, cs =>
    match cs with
    | ']' :: rest => some (.list acc.reverse, rest)
    | _ =>
      match flowValue? fuel cs with
      | none => none
      | some (value, rest) =>
        match skipFlow fuel rest with
        | ',' :: more => flowItems? fuel (value :: acc) (skipFlow fuel (' ' :: more))
        | ']' :: more => some (.list (value :: acc).reverse, more)
        | _ => none

def flowEntries? : Nat → List (String × Document) → List Char → Option (Document × List Char)
  | 0, _, _ => none
  | fuel + 1, acc, cs =>
    match cs with
    | '}' :: rest => some (.table acc.reverse, rest)
    | _ =>
      match flowText? cs with
      | none => none
      | some (_, key, rest) =>
        let entry? := match skipFlow fuel rest with
          | ':' :: more =>
            let more := skipFlow fuel (' ' :: more)
            if more.head? == some ',' || more.head? == some '}' then some (Document.null, more)
            else flowValue? fuel more
          | more => some (.null, more)
        match entry? with
        | none => none
        | some (value, rest) =>
          if acc.any fun f => f.1 == key then none
          else
            match skipFlow fuel rest with
            | ',' :: more => flowEntries? fuel ((key, value) :: acc) (skipFlow fuel (' ' :: more))
            | '}' :: more => some (.table ((key, value) :: acc).reverse, more)
            | _ => none

end

/-! ## Block collections -/

/-- A line that says something, without its indentation. -/
structure Line where
  indent : Nat
  content : List Char

/-- Whether only blanks and a comment follow. -/
def restIsEmpty (cs : List Char) : Bool :=
  match skipBlanks cs with
  | [] => true
  | c :: _ => c = '#' && atBlank cs

/-- Splits a plain scalar off a line: it ends before a colon with a blank, or before a comment. -/
def blockPlain : List Char → List Char × List Char
  | [] => ([], [])
  | c :: rest =>
    if c = ':' && atBlank rest then ([], c :: rest)
    else if (c = ' ' || c = '\t') && rest.head? == some '#' then ([], c :: rest)
    else
      let (text, rest) := blockPlain rest
      (c :: text, rest)

/-- The key that a line begins with, and what follows its colon. -/
def key? (cs : List Char) : Option (String × List Char) :=
  let found? :=
    if isQuote cs then quotedScalar? cs
    else if startsPlain cs then
      let (text, rest) := blockPlain cs
      some (trimmed text, rest)
    else none
  match found? with
  | none => none
  | some (key, rest) =>
    match skipBlanks rest with
    | ':' :: more => if atBlank more then some (key, more) else none
    | _ => none

def isItem (l : Line) : Bool :=
  match l.content with
  | '-' :: rest => atBlank rest
  | _ => false

/-- All lines as one text. -/
def joined (first : List Char) (below : List Line) : List Char :=
  first ++ below.flatMap fun l => '\n' :: l.content

/-- The lines below the one that a value ended on; nothing else may follow the value there. -/
def linesAfter? (below : List Line) (rest : List Char) : Option (List Line) :=
  if restIsEmpty (rest.takeWhile (· ≠ '\n')) then
    some (below.drop (below.length - (rest.filter (· = '\n')).length))
  else none

/-- The lines that continue a plain scalar: further to the right, and without a key. -/
def continued (above : Int) : List Line → Option (List String × List Line)
  | [] => some ([], [])
  | l :: rest =>
    if above < l.indent then
      let (text, after) := blockPlain l.content
      if !restIsEmpty after then none
      else
        match continued above rest with
        | none => none
        | some (texts, rest) => some (trimmed text :: texts, rest)
    else some ([], l :: rest)

/-- Reads a value that begins on a line, below something indented by `above`. -/
def inlineValue? (above : Int) (first : List Char) (below : List Line) :
    Option (Document × List Line) :=
  let all := joined first below
  if isQuote first then do
    let (s, rest) ← quotedScalar? all
    return (.text s, ← linesAfter? below rest)
  else if first.head? == some '[' || first.head? == some '{' then do
    let (value, rest) ← flowValue? (2 * all.length + 2) all
    return (value, ← linesAfter? below rest)
  else if startsPlain first then do
    let (text, rest) := blockPlain first
    guard (restIsEmpty rest)
    let (texts, below) ← continued above below
    return (plain (" ".intercalate (trimmed text :: texts)), below)
  else none

mutual

/-- Reads the value that begins with the first line. -/
def blockAt? : Nat → Int → List Line → Option (Document × List Line)
  | 0, _, _ => none
  | _, _, [] => some (.null, [])
  | fuel + 1, above, l :: rest =>
    if isItem l then items? fuel l.indent [] (l :: rest)
    else if (key? l.content).isSome then entries? fuel l.indent [] (l :: rest)
    else inlineValue? above l.content rest

/-- Reads what follows a key or a dash: the rest of its line, or the lines further to the right. -/
def valueAfter? : Nat → Nat → Bool → List Char → List Line → Option (Document × List Line)
  | 0, _, _, _, _ => none
  | fuel + 1, indent, inEntry, after, below =>
    if restIsEmpty after then
      match below with
      | [] => some (.null, [])
      | l :: rest =>
        if indent < l.indent || (inEntry && l.indent = indent && isItem l) then
          blockAt? fuel indent (l :: rest)
        else some (.null, l :: rest)
    else if inEntry then inlineValue? indent (skipBlanks after) below
    else
      let content := skipBlanks after
      let shift := 1 + (after.length - content.length)
      blockAt? fuel indent (⟨indent + shift, content⟩ :: below)

def items? : Nat → Nat → List Document → List Line → Option (Document × List Line)
  | 0, _, _, _ => none
  | fuel + 1, indent, acc, lines =>
    match lines with
    | [] => some (.list acc.reverse, [])
    | l :: rest =>
      if indent < l.indent then none
      else if l.indent = indent && isItem l then
        match valueAfter? fuel indent false (l.content.drop 1) rest with
        | none => none
        | some (value, rest) => items? fuel indent (value :: acc) rest
      else some (.list acc.reverse, l :: rest)

def entries? : Nat → Nat → List (String × Document) → List Line → Option (Document × List Line)
  | 0, _, _, _ => none
  | fuel + 1, indent, acc, lines =>
    match lines with
    | [] => some (.table acc.reverse, [])
    | l :: rest =>
      if indent < l.indent then none
      else if l.indent < indent then some (.table acc.reverse, l :: rest)
      else
        match key? l.content with
        | none => none
        | some (key, after) =>
          if acc.any fun f => f.1 == key then none
          else
            match valueAfter? fuel indent true after rest with
            | none => none
            | some (value, rest) => entries? fuel indent ((key, value) :: acc) rest

end

/-! ## Documents -/

def lineOf (text : List Char) : Line :=
  let content := text.dropWhile (· = ' ')
  ⟨text.length - content.length, content⟩

/-- What follows three dashes at the start of a line. -/
def marker? : List Char → Option (List Char)
  | '-' :: '-' :: '-' :: rest => if atBlank rest then some rest else none
  | _ => none

def isEndMarker (text : List Char) : Bool :=
  text.take 3 == ['.', '.', '.'] && atBlank (text.drop 3)

/-- The lines of each document; one without a marker exists only if it says something. -/
def documents : List (List Char) → Option (List Line) → List (List Line)
  | [], current => current.toList.map List.reverse
  | text :: rest, current =>
    match marker? text with
    | some after =>
      let first := if restIsEmpty after then [] else [⟨4, skipBlanks after⟩]
      current.toList.map List.reverse ++ documents rest (some first)
    | none =>
      if isEndMarker text then current.toList.map List.reverse ++ documents rest none
      else if restIsEmpty text || text.head? == some '#' then documents rest current
      else documents rest (some (lineOf text :: current.getD []))

/-- The lines of a text, carriage returns dropped. -/
def textLines (text : String) : List (List Char) :=
  let step (c : Char) (lines : List (List Char)) : List (List Char) :=
    if c = '\n' then [] :: lines
    else
      match lines with
      | [] => [[c]]
      | line :: more => (c :: line) :: more
  (text.toList.foldr step [[]]).map fun line => line.filter (· ≠ '\r')

/-- Reads a text with one document at most; a text that says nothing is an empty table. -/
def read? (text : String) : Option Document :=
  match documents (textLines text) none with
  | [] => some (.table [])
  | [lines] =>
    match blockAt? (4 * text.length + 4) (-1) lines with
    | some (value, []) => some value
    | _ => none
  | _ => none

end Multisample.Yaml
