import ClassScript.Text.Hidden

/-!
# Quoted text

Text in double quotes in which every character is visible: a quote and a backslash are preceded by
a backslash, five control characters have short escapes, and every other hidden character is
written as its code point in hexadecimal digits.
-/

set_option autoImplicit false

namespace ClassScript.Text

/-- The code point in lower-case hexadecimal digits between braces. -/
def codePointEscape (c : Char) : String :=
  "\\u\x7b" ++ String.ofList (Nat.toDigits 16 c.toNat) ++ "\x7d"

/-- How a character is written between quotes. -/
def escape (c : Char) : String :=
  match c with
  | '\x00' => "\\0"
  | '\t' => "\\t"
  | '\r' => "\\r"
  | '\n' => "\\n"
  | '\\' => "\\\\"
  | '"' => "\\\""
  | c =>
    if ' ' ≤ c ∧ c ≤ '~' then c.toString
    else if isHidden c then codePointEscape c
    else c.toString

/-- A text in double quotes. -/
def quoted (s : String) : String :=
  "\"" ++ String.join (s.toList.map escape) ++ "\""

end ClassScript.Text
