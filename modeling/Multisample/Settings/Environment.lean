import Multisample.Settings.Document

/-!
# Settings from the environment

Variables that begin with `FLOE_` are settings: the rest of the name in lower
case is the key, two underscores lead into a table.  A value that reads as a
truth value or a number is one.
-/

namespace Multisample.Environment

/-- What a variable is called that holds a setting, in lower case. -/
def namespaceText : String := "floe_"

/-- What the text of a variable means. -/
def value (text : String) : Document :=
  match text.toLower with
  | "true" => .flag true
  | "false" => .flag false
  | _ =>
    match (readInt? text).filter Document.fitsWhole with
    | some n => .whole n
    | none =>
      match readFloat? text with
      | some x => .real x
      | none => .text text

/-- Splits a name where two underscores stand. -/
def splitName : List Char → List (List Char)
  | [] => [[]]
  | '_' :: '_' :: rest => [] :: splitName rest
  | c :: rest =>
    match splitName rest with
    | [] => [[c]]
    | part :: more => (c :: part) :: more

/-- The keys that a variable stands for, if it is a setting. -/
def keys? (name : String) : Option (List String) :=
  let name := name.toLower
  if name.startsWith namespaceText then
    some ((splitName (name.toList.drop namespaceText.length)).map String.ofList)
  else none

/-- The settings in the environment. -/
def document (named : List (String × String)) : Document :=
  named.foldl
    (fun d (name, text) =>
      match keys? name with
      | some keys => Document.insert (value text) keys d
      | none => d)
    (.table [])

end Multisample.Environment
