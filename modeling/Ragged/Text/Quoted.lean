import Ragged.Text.Invisible

/-!
# Text in quotes

How messages show a text that came from the data: in double quotes, with the quote, the backslash
and the usual blanks behind a backslash, and every character that leaves no mark of its own by its
number. Single quotes stand as they are.
-/

set_option autoImplicit false

namespace Ragged

/-- A character inside quotes. -/
def quotedChar (c : Char) : String :=
  match c with
  | '\x00' => "\\0"
  | '\t' => "\\t"
  | '\r' => "\\r"
  | '\n' => "\\n"
  | '"' => "\\\""
  | '\\' => "\\\\"
  | c =>
    if isInvisible c then
      "\\u\x7b" ++ String.ofList (Nat.toDigits 16 c.toNat) ++ "\x7d"
    else c.toString

/-- A text in quotes. -/
def quoted (s : String) : String :=
  s.toList.foldl (fun out c => out ++ quotedChar c) "\"" ++ "\""

end Ragged
