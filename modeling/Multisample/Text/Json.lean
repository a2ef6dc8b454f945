import Multisample.Text.Quoted

/-!
# JSON

Reports for other programs are JSON documents, laid out over several lines with
two spaces for each level.  They hold texts only, in lists and objects whose
fields keep their order.
-/

namespace Multisample.Text

inductive Json where
  | text (s : String)
  | list (items : List Json)
  | object (fields : List (String × Json))
deriving Inhabited

namespace Json

def texts (items : List String) : Json :=
  list (items.map text)

/-- How one character of a text is written; controls without a letter of their own get a number. -/
def escape (c : Char) : String :=
  match c with
  | '"' => "\\\""
  | '\\' => "\\\\"
  | '\n' => "\\n"
  | '\r' => "\\r"
  | '\t' => "\\t"
  | '\x08' => "\\b"
  | '\x0c' => "\\f"
  | c =>
    if c.toNat < 32 then "\\u00" ++ (if c.toNat < 16 then "0" else "") ++ hex c.toNat
    else c.toString

def quoted (s : String) : String :=
  "\"" ++ String.join (s.toList.map escape) ++ "\""

/-- A new line, indented. -/
def newline (level : Nat) : String :=
  "\n" ++ String.ofList (List.replicate (2 * level) ' ')

mutual

/-- The document, its first line at some level. -/
def render (level : Nat) : Json → String
  | text s => quoted s
  | list [] => "[]"
  | list (item :: rest) =>
    "[" ++ newline (level + 1) ++ render (level + 1) item ++ renderItems level rest ++ "]"
  | object [] => "\x7b\x7d"
  | object ((key, value) :: rest) =>
    "\x7b" ++ newline (level + 1) ++ quoted key ++ ": " ++ render (level + 1) value
      ++ renderFields level rest ++ "\x7d"

/-- The items behind the first one, and the line that the list ends on. -/
def renderItems (level : Nat) : List Json → String
  | [] => newline level
  | item :: rest =>
    "," ++ newline (level + 1) ++ render (level + 1) item ++ renderItems level rest

/-- The fields behind the first one, and the line that the object ends on. -/
def renderFields (level : Nat) : List (String × Json) → String
  | [] => newline level
  | (key, value) :: rest =>
    "," ++ newline (level + 1) ++ quoted key ++ ": " ++ render (level + 1) value
      ++ renderFields level rest

end

end Json

end Multisample.Text
