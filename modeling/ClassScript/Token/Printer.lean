import ClassScript.Number.Shortest
import ClassScript.Token.Basic

/-!
# Tokens as text

A token is listed as its kind, its text and its payload, or as a JSON object.
-/

set_option autoImplicit false

namespace ClassScript.Token

/-- A minus sign in front of a negative number. -/
def signed (negative : Bool) (text : String) : String :=
  if negative then "-" ++ text else text

/-- The payload of a number in listings: an integral number below `2 ^ 63` ends in `.0` and loses
the sign of zero; any other number has its shortest digits, padded with zeros up to the point. -/
def numberText (x : Float) : String :=
  match Exact.ofFloat x with
  | .nan => "NaN"
  | .infinite negative => signed negative "inf"
  | .finite negative m q =>
    let whole := Exact.floor m q
    if Exact.isWhole m q ∧ whole < twoPow 63 then
      signed (negative && whole ≠ 0) (Decimal.digitText whole) ++ ".0"
    else signed negative (Decimal.shortest .awayFromZero m q).positional

/-- The payload of a number in JSON: the shortest digits, positional if the first one stands
between five places after and sixteen before the point. -/
def numberJson (x : Float) : String :=
  match Exact.ofFloat x with
  | .nan => "null"
  | .infinite _ => "null"
  | .finite negative m q =>
    if m = 0 then signed negative "0.0"
    else
      let d := Decimal.shortest .toEven m q
      if -5 ≤ d.leading ∧ d.leading < 16 then
        signed negative (if 0 ≤ d.exponent then d.positional ++ ".0" else d.positional)
      else signed negative d.scientific

/-- The payload in listings, `null` for a token without one. -/
def literalText (t : Token) : String :=
  match t.kind with
  | .string s => s
  | .number x => numberText x
  | _ => "null"

/-- The token in a listing. -/
def listing (t : Token) : String :=
  t.kind.name ++ " " ++ t.lexeme ++ " " ++ t.literalText

/-- The character between the quotes of a JSON string. -/
def jsonEscape (c : Char) : String :=
  match c with
  | '"' => "\\\""
  | '\\' => "\\\\"
  | '\n' => "\\n"
  | '\r' => "\\r"
  | '\t' => "\\t"
  | '\x08' => "\\b"
  | '\x0c' => "\\f"
  | c =>
    if c.toNat < 0x20 then
      "\\u00" ++ String.ofList [Nat.digitChar (c.toNat / 16), Nat.digitChar (c.toNat % 16)]
    else c.toString

/-- A JSON string. -/
def jsonString (s : String) : String :=
  "\"" ++ s.toList.foldl (fun out c => out ++ jsonEscape c) "" ++ "\""

/-- The kind in JSON: its name, or an object from its name to its payload. -/
def kindJson (kind : TokenKind) : String :=
  match kind with
  | .string s => "\x7b\"STRING\":" ++ jsonString s ++ "\x7d"
  | .number x => "\x7b\"NUMBER\":" ++ numberJson x ++ "\x7d"
  | kind => jsonString kind.name

/-- The token as a JSON object. -/
def json (t : Token) : String :=
  "\x7b\"token_type\":" ++ kindJson t.kind ++ ",\"lexeme\":" ++ jsonString t.lexeme ++
    ",\"line\":" ++ toString t.line ++ "\x7d"

end ClassScript.Token
