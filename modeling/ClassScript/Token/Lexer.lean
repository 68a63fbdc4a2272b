import ClassScript.Token.Basic

/-!
# From text to tokens

`lexemes` cuts a source into pieces, none of them empty, which joined give the source again: blanks,
comments, tokens, and pieces that are no token. `items` numbers the lines of the pieces, drops blanks
and comments, and ends with the end of the source. A faulty piece is reported and skipped.
-/

set_option autoImplicit false

namespace ClassScript

/-- Why a piece of the source is no token. -/
inductive LexCause where
  | unexpected (c : Char)
  | unterminatedString
  deriving Repr, DecidableEq

/-- The cause in words. -/
def LexCause.message : LexCause → String
  | unexpected c => "Unexpected character: " ++ c.toString
  | unterminatedString => "Unterminated string."

/-- A piece of the source that is no token, and the line on which it ends. -/
structure LexError where
  cause : LexCause
  line : Nat
  deriving Repr, DecidableEq

namespace Lexer

/-- What a piece of the source is. -/
inductive Item where
  | blank
  | comment
  | token (kind : TokenKind)
  | fault (cause : LexCause)
  deriving Repr, DecidableEq

/-- A piece of the source. -/
structure Lexeme where
  item : Item
  text : List Char
  deriving Repr, DecidableEq

/-- The characters between tokens. -/
def isBlank (c : Char) : Bool :=
  c = ' ' ∨ c = '\t' ∨ c = '\r' ∨ c = '\n'

/-- The characters that start a name or a reserved word. -/
def isWordStart (c : Char) : Bool :=
  c.isAlpha || c = '_'

/-- The characters of a name or a reserved word. -/
def isWordPart (c : Char) : Bool :=
  c.isAlphanum || c = '_'

/-- The number that decimal digits stand for. -/
def digitsValue (digits : List Char) : Nat :=
  digits.foldl (fun n c => 10 * n + (c.toNat - '0'.toNat)) 0

/-- The double nearest to the number with these digits before and after the point. -/
def literalValue (whole fraction : List Char) : Float :=
  Float.ofScientific (digitsValue (whole ++ fraction)) true fraction.length

/-- What a word is: a reserved word or a name. -/
def wordKind (text : List Char) : TokenKind :=
  match Symbol.ofWord? (String.ofList text) with
  | some s => .symbol s
  | none => .identifier

/-- The comment that starts with `c`; it ends before the next newline. -/
def commentAt (c : Char) (rest : List Char) : Lexeme × List Char :=
  (⟨.comment, c :: rest.takeWhile (· ≠ '\n')⟩, rest.dropWhile (· ≠ '\n'))

/-- The string that starts with the quote `c`. -/
def stringAt (c : Char) (rest : List Char) : Lexeme × List Char :=
  let value := rest.takeWhile (· ≠ '"')
  match rest.dropWhile (· ≠ '"') with
  | [] => (⟨.fault .unterminatedString, c :: value⟩, [])
  | quote :: after => (⟨.token (.string (String.ofList value)), c :: (value ++ [quote])⟩, after)

/-- The number that starts with the digit `c`; a point belongs to it if a digit follows. -/
def numberAt (c : Char) (rest : List Char) : Lexeme × List Char :=
  let whole := c :: rest.takeWhile Char.isDigit
  let after := rest.dropWhile Char.isDigit
  match after with
  | '.' :: d :: more =>
    if d.isDigit then
      let fraction := d :: more.takeWhile Char.isDigit
      (⟨.token (.number (literalValue whole fraction)), whole ++ '.' :: fraction⟩,
        more.dropWhile Char.isDigit)
    else (⟨.token (.number (literalValue whole [])), whole⟩, after)
  | _ => (⟨.token (.number (literalValue whole [])), whole⟩, after)

/-- The name or reserved word that starts with `c`. -/
def wordAt (c : Char) (rest : List Char) : Lexeme × List Char :=
  let text := c :: rest.takeWhile isWordPart
  (⟨.token (wordKind text), text⟩, rest.dropWhile isWordPart)

/-- The symbol or unexpected character `c`. -/
def charAt (c : Char) (rest : List Char) : Lexeme × List Char :=
  match Symbol.ofChar? c with
  | some s => (⟨.token (.symbol s), [c]⟩, rest)
  | none => (⟨.fault (.unexpected c), [c]⟩, rest)

/-- The symbol of two characters that starts with `c`, or else `c` on its own. -/
def symbolAt (c : Char) (rest : List Char) : Lexeme × List Char :=
  match rest with
  | [] => charAt c []
  | d :: after =>
    match Symbol.ofPair? c d with
    | some s => (⟨.token (.symbol s), [c, d]⟩, after)
    | none => charAt c (d :: after)

/-- The first piece of a source that starts with `c`, and what follows it. -/
def first (c : Char) (rest : List Char) : Lexeme × List Char :=
  if isBlank c then (⟨.blank, [c]⟩, rest)
  else if c = '/' ∧ rest.head? = some '/' then commentAt c rest
  else if c = '"' then stringAt c rest
  else if c.isDigit then numberAt c rest
  else if isWordStart c then wordAt c rest
  else symbolAt c rest

/-! ## Nothing is lost -/

theorem commentAt_text (c : Char) (rest : List Char) :
    (commentAt c rest).1.text ++ (commentAt c rest).2 = c :: rest := by
  simp [commentAt, List.takeWhile_append_dropWhile]

theorem stringAt_text (c : Char) (rest : List Char) :
    (stringAt c rest).1.text ++ (stringAt c rest).2 = c :: rest := by
  have h := List.takeWhile_append_dropWhile (p := (· ≠ '"')) (l := rest)
  unfold stringAt
  split
  next hd => rw [hd, List.append_nil] at h; simp only [List.append_nil, h]
  next hd => rw [hd] at h; simpa using h

theorem numberAt_text (c : Char) (rest : List Char) :
    (numberAt c rest).1.text ++ (numberAt c rest).2 = c :: rest := by
  have h := List.takeWhile_append_dropWhile (p := Char.isDigit) (l := rest)
  unfold numberAt
  dsimp only
  split
  next d more hd =>
    have hm := List.takeWhile_append_dropWhile (p := Char.isDigit) (l := more)
    split
    · rw [hd] at h
      simpa [hm] using h
    · simp
  next => simp

theorem wordAt_text (c : Char) (rest : List Char) :
    (wordAt c rest).1.text ++ (wordAt c rest).2 = c :: rest := by
  simp [wordAt, List.takeWhile_append_dropWhile]

theorem charAt_text (c : Char) (rest : List Char) :
    (charAt c rest).1.text ++ (charAt c rest).2 = c :: rest := by
  unfold charAt; split <;> simp

theorem symbolAt_text (c : Char) (rest : List Char) :
    (symbolAt c rest).1.text ++ (symbolAt c rest).2 = c :: rest := by
  unfold symbolAt
  split
  · exact charAt_text c []
  · split
    · simp
    · exact charAt_text c _

/-- The first piece and what follows it are the source. -/
theorem first_text (c : Char) (rest : List Char) :
    (first c rest).1.text ++ (first c rest).2 = c :: rest := by
  unfold first
  split
  · simp
  · split
    · exact commentAt_text c rest
    · split
      · exact stringAt_text c rest
      · split
        · exact numberAt_text c rest
        · split
          · exact wordAt_text c rest
          · exact symbolAt_text c rest

theorem numberAt_text_ne_nil (c : Char) (rest : List Char) : (numberAt c rest).1.text ≠ [] := by
  unfold numberAt
  dsimp only
  split
  · split <;> simp
  · simp

theorem stringAt_text_ne_nil (c : Char) (rest : List Char) : (stringAt c rest).1.text ≠ [] := by
  unfold stringAt
  split <;> simp

theorem charAt_text_ne_nil (c : Char) (rest : List Char) : (charAt c rest).1.text ≠ [] := by
  unfold charAt
  split <;> simp

theorem symbolAt_text_ne_nil (c : Char) (rest : List Char) : (symbolAt c rest).1.text ≠ [] := by
  unfold symbolAt
  split
  · exact charAt_text_ne_nil c []
  · split
    · simp
    · exact charAt_text_ne_nil c _

/-- The first piece has a character. -/
theorem first_text_ne_nil (c : Char) (rest : List Char) : (first c rest).1.text ≠ [] := by
  unfold first
  split
  · simp
  · split
    · simp [commentAt]
    · split
      · exact stringAt_text_ne_nil c rest
      · split
        · exact numberAt_text_ne_nil c rest
        · split
          · simp [wordAt]
          · exact symbolAt_text_ne_nil c rest

theorem first_length_le (c : Char) (rest : List Char) :
    (first c rest).2.length < (c :: rest).length := by
  have h := congrArg List.length (first_text c rest)
  have hn := List.length_pos_iff.mpr (first_text_ne_nil c rest)
  rw [List.length_append] at h
  omega

/-- The pieces of a source. -/
def lexemes : List Char → List Lexeme
  | [] => []
  | c :: rest => (first c rest).1 :: lexemes (first c rest).2
termination_by s => s.length
decreasing_by exact first_length_le c rest

/-- The number of newlines in a text. -/
def newlines (text : List Char) : Nat :=
  text.count '\n'

/-- The tokens and faults among the pieces of a source of which the first starts on `line`. -/
def items (line : Nat) : List Lexeme → List (Except LexError Token)
  | [] => [.ok ⟨.eof, "", line⟩]
  | l :: rest =>
    let last := line + newlines l.text
    match l.item with
    | .blank => items last rest
    | .comment => items last rest
    | .token kind => .ok ⟨kind, String.ofList l.text, last⟩ :: items last rest
    | .fault cause => .error ⟨cause, last⟩ :: items last rest

end Lexer

/-- The tokens among the results of a scan. -/
def scannedTokens (items : List (Except LexError Token)) : List Token :=
  items.filterMap Except.toOption

/-- The fault of a result of a scan. -/
def scanFault? : Except LexError Token → Option LexError
  | .ok _ => none
  | .error e => some e

/-- The faults among the results of a scan. -/
def scanFaults (items : List (Except LexError Token)) : List LexError :=
  items.filterMap scanFault?

end ClassScript
