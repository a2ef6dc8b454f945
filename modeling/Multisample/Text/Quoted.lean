import Multisample.Text.CharClass

/-!
# Quoted texts

A text in messages stands between double quotes.  Quotes and backslashes are
escaped, and so is every character that would not show.
-/

namespace Multisample.Text

/-- The digits of a number in base sixteen, without leading zeros. -/
def hex (n : Nat) : String :=
  String.ofList ((Nat.toDigits 16 n))

/-- How one character is written between double quotes. -/
def escape (c : Char) : String :=
  match c with
  | '"' => "\\\""
  | '\\' => "\\\\"
  | '\n' => "\\n"
  | '\r' => "\\r"
  | '\t' => "\\t"
  | '\x00' => "\\0"
  | c => if isVisible c then c.toString else "\\u\x7b" ++ hex c.toNat ++ "\x7d"

def quoted (text : String) : String :=
  "\"" ++ String.join (text.toList.map escape) ++ "\""

end Multisample.Text
