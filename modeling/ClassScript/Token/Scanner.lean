import ClassScript.Token.Lexer

/-!
# The scanner

One pass over the bytes of a source. The scanner remembers where the current piece starts, how far it
has read and the line; each step reads one piece. Reading past the end and cutting a piece out of the
source inside a character both fail: then there is no result at all.
-/

set_option autoImplicit false

namespace ClassScript

/-- The text between two bytes of a source, none unless both are boundaries between characters. -/
def slice? (source : String) (start stop : Nat) : Option String :=
  if h : String.Pos.Raw.IsValid source ⟨start⟩ ∧ String.Pos.Raw.IsValid source ⟨stop⟩ ∧ start ≤ stop then
    some (source.extract (source.pos ⟨start⟩ h.1) (source.pos ⟨stop⟩ h.2.1))
  else none

/-- The state of a scan: the first byte of the current piece, the byte after the last one that was
read, and the line. -/
structure Scanner where
  source : String
  start : Nat
  pos : Nat
  line : Nat

namespace Scanner

/-- The bytes of the source. -/
abbrev bytes (s : Scanner) : ByteArray :=
  s.source.toByteArray

/-- A scanner at the start of a source. -/
def new (source : String) : Scanner :=
  ⟨source, 0, 0, 1⟩

/-! ## Bytes -/

/-- Reads one byte; there must be one. -/
def advance (s : Scanner) : Option (UInt8 × Scanner) :=
  s.bytes[s.pos]?.map fun b => (b, { s with pos := s.pos + 1 })

/-- The next byte as a character of its own, if there is one. -/
def peek? (s : Scanner) : Option Char :=
  s.bytes[s.pos]?.map Char.ofUInt8

/-- The byte after the next one as a character of its own, if there is one. -/
def peekNext? (s : Scanner) : Option Char :=
  s.bytes[s.pos + 1]?.map Char.ofUInt8

/-- Reads bytes as long as they have the property. -/
def skipWhile (p : UInt8 → Bool) (s : Scanner) : Scanner :=
  if h : s.pos < s.bytes.size then
    if p s.bytes[s.pos] then skipWhile p { s with pos := s.pos + 1 } else s
  else s
termination_by s.bytes.size - s.pos
decreasing_by exact Nat.sub_lt_sub_left h (Nat.lt_succ_self s.pos)

/-- Reads bytes up to a quote and counts the lines. -/
def skipString (s : Scanner) : Scanner :=
  if h : s.pos < s.bytes.size then
    let c := Char.ofUInt8 s.bytes[s.pos]
    if c = '"' then s
    else skipString { s with pos := s.pos + 1, line := if c = '\n' then s.line + 1 else s.line }
  else s
termination_by s.bytes.size - s.pos
decreasing_by exact Nat.sub_lt_sub_left h (Nat.lt_succ_self s.pos)

/-- Bytes that go on with a character. -/
def isContinuation (b : UInt8) : Bool :=
  b &&& 0xC0 = 0x80

/-! ## Pieces -/

/-- What has been read: nothing that counts, a token, or something that is no token. -/
inductive Piece where
  | skipped
  | token (kind : TokenKind)
  | fault (error : LexError)
  deriving Repr, DecidableEq

/-- The current piece as text. -/
def text? (s : Scanner) : Option String :=
  slice? s.source s.start s.pos

/-- The rest of a string, after its first quote. -/
def readString (s : Scanner) : Option (Piece × Scanner) :=
  let s := s.skipString
  if s.pos < s.bytes.size then do
    let (_, s) ← s.advance
    let value ← slice? s.source (s.start + 1) (s.pos - 1)
    return (.token (.string value), s)
  else some (.fault ⟨.unterminatedString, s.line⟩, s)

/-- The number that decimal digits with or without a point stand for. -/
def numberOf (text : List Char) : Float :=
  Lexer.literalValue (text.takeWhile Char.isDigit) ((text.dropWhile Char.isDigit).drop 1)

/-- The bytes of decimal digits. -/
def isDigit (b : UInt8) : Bool :=
  (Char.ofUInt8 b).isDigit

/-- A point and the digits after it, if there is one with a digit after it. -/
def skipFraction (s : Scanner) : Option Scanner :=
  if s.peek? = some '.' ∧ s.peekNext?.any Char.isDigit = true then
    s.advance.map fun (_, s) => s.skipWhile isDigit
  else some s

/-- The rest of a number, after its first digit. -/
def readNumber (s : Scanner) : Option (Piece × Scanner) := do
  let s ← (s.skipWhile isDigit).skipFraction
  let text ← s.text?
  return (.token (.number (numberOf text.toList)), s)

/-- The rest of a name or of a reserved word, after its first character. -/
def readWord (s : Scanner) : Option (Piece × Scanner) := do
  let s := s.skipWhile fun b => Lexer.isWordPart (Char.ofUInt8 b)
  let text ← s.text?
  return (.token (Lexer.wordKind text.toList), s)

/-- The rest of an unexpected character, after its first byte. -/
def readUnexpected (s : Scanner) : Option (Piece × Scanner) := do
  let s := s.skipWhile isContinuation
  let text ← s.text?
  return (.fault ⟨.unexpected (text.toList.headD '\ufffd'), s.line⟩, s)

/-- The rest of a symbol, after its first byte, if it is one. -/
def readSymbol (c : Char) (s : Scanner) : Option (Piece × Scanner) :=
  match s.peek?.bind (Symbol.ofPair? c) with
  | some symbol => do
    let (_, s) ← s.advance
    return (.token (.symbol symbol), s)
  | none =>
    match Symbol.ofChar? c with
    | some symbol => some (.token (.symbol symbol), s)
    | none => s.readUnexpected

/-- Reads one piece. -/
def readPiece (s : Scanner) : Option (Piece × Scanner) := do
  let (b, s) ← s.advance
  let c := Char.ofUInt8 b
  if c = '\n' then some (.skipped, { s with line := s.line + 1 })
  else if Lexer.isBlank c then some (.skipped, s)
  else if c = '/' ∧ s.peek? = some '/' then do
    let (_, s) ← s.advance
    return (.skipped, s.skipWhile fun b => Char.ofUInt8 b ≠ '\n')
  else if c = '"' then s.readString
  else if c.isDigit then s.readNumber
  else if Lexer.isWordStart c then s.readWord
  else s.readSymbol c

/-! ## Steps lead onward -/

/-- The second scanner has read at least as far in the same source. -/
structure Onward (s t : Scanner) : Prop where
  pos : s.pos ≤ t.pos
  source : t.source = s.source

namespace Onward

variable {s t u : Scanner}

theorem refl (s : Scanner) : Onward s s :=
  ⟨Nat.le_refl _, rfl⟩

theorem trans (h : Onward s t) (h' : Onward t u) : Onward s u :=
  ⟨Nat.le_trans h.pos h'.pos, h'.source.trans h.source⟩

end Onward

variable {s t : Scanner} {b : UInt8} {piece : Piece}

theorem advance_pos (h : s.advance = some (b, t)) : t.pos = s.pos + 1 ∧ t.source = s.source := by
  obtain ⟨b', -, hb⟩ := Option.map_eq_some_iff.1 h
  cases hb
  exact ⟨rfl, rfl⟩

theorem advance_onward (h : s.advance = some (b, t)) : Onward s t :=
  ⟨(advance_pos h).1 ▸ Nat.le_succ _, (advance_pos h).2⟩

theorem skipWhile_onward (p : UInt8 → Bool) (s : Scanner) : Onward s (s.skipWhile p) := by
  induction s using skipWhile.induct (p := p) with
  | case1 s h hp ih =>
    rw [skipWhile, dif_pos h, if_pos hp]
    exact ⟨Nat.le_trans (Nat.le_succ _) ih.pos, ih.source⟩
  | case2 s h hp =>
    rw [skipWhile, dif_pos h, if_neg hp]
    exact .refl s
  | case3 s h =>
    rw [skipWhile, dif_neg h]
    exact .refl s

theorem skipString_onward (s : Scanner) : Onward s s.skipString := by
  induction s using skipString.induct with
  | case1 s h c hc =>
    rw [skipString, dif_pos h, if_pos hc]
    exact .refl s
  | case2 s h c hc ih =>
    rw [skipString, dif_pos h, if_neg hc]
    exact ⟨Nat.le_trans (Nat.le_succ _) ih.pos, ih.source⟩
  | case3 s h =>
    rw [skipString, dif_neg h]
    exact .refl s

theorem readString_onward (h : s.readString = some (piece, t)) : Onward s t := by
  unfold readString at h
  dsimp only at h
  split at h
  · obtain ⟨⟨b, u⟩, hu, h⟩ := Option.bind_eq_some_iff.1 h
    obtain ⟨value, -, h⟩ := Option.bind_eq_some_iff.1 h
    cases h
    exact (skipString_onward s).trans (advance_onward hu)
  · cases h
    exact skipString_onward s

theorem skipFraction_onward (h : s.skipFraction = some t) : Onward s t := by
  unfold skipFraction at h
  split at h
  · obtain ⟨⟨b, u⟩, hu, rfl⟩ := Option.map_eq_some_iff.1 h
    exact (advance_onward hu).trans (skipWhile_onward _ u)
  · cases h
    exact .refl s

theorem readNumber_onward (h : s.readNumber = some (piece, t)) : Onward s t := by
  obtain ⟨u, hu, h⟩ := Option.bind_eq_some_iff.1 h
  obtain ⟨text, -, h⟩ := Option.bind_eq_some_iff.1 h
  cases h
  exact (skipWhile_onward _ s).trans (skipFraction_onward hu)

theorem readWord_onward (h : s.readWord = some (piece, t)) : Onward s t := by
  obtain ⟨text, -, h⟩ := Option.bind_eq_some_iff.1 h
  cases h
  exact skipWhile_onward _ s

theorem readUnexpected_onward (h : s.readUnexpected = some (piece, t)) : Onward s t := by
  obtain ⟨text, -, h⟩ := Option.bind_eq_some_iff.1 h
  cases h
  exact skipWhile_onward _ s

theorem readSymbol_onward {c : Char} (h : s.readSymbol c = some (piece, t)) : Onward s t := by
  unfold readSymbol at h
  split at h
  · obtain ⟨⟨b, u⟩, hu, h⟩ := Option.bind_eq_some_iff.1 h
    cases h
    exact advance_onward hu
  · split at h
    · cases h
      exact .refl s
    · exact readUnexpected_onward h

theorem readPiece_pos (h : s.readPiece = some (piece, t)) :
    s.pos < t.pos ∧ t.source = s.source := by
  obtain ⟨⟨b, u⟩, hu, h⟩ := Option.bind_eq_some_iff.1 h
  obtain ⟨hpos, hsource⟩ := advance_pos hu
  have hstep : Onward u t := by
    dsimp only at h
    split at h
    · cases h
      exact ⟨Nat.le_refl _, rfl⟩
    · split at h
      · cases h
        exact .refl _
      · split at h
        · obtain ⟨⟨b', v⟩, hv, h⟩ := Option.bind_eq_some_iff.1 h
          cases h
          exact (advance_onward hv).trans (skipWhile_onward _ v)
        · split at h
          · exact readString_onward h
          · split at h
            · exact readNumber_onward h
            · split at h
              · exact readWord_onward h
              · exact readSymbol_onward h
  exact ⟨Nat.lt_of_lt_of_le (hpos ▸ Nat.lt_succ_self _) hstep.pos, hstep.source.trans hsource⟩

/-! ## The whole scan -/

/-- The next token or fault, if the scan is not over; the end of the source is the last token. -/
def next (s : Scanner) : Option (Option (Except LexError Token) × Scanner) :=
  if s.bytes.size < s.pos then some (none, s)
  else if s.pos = s.bytes.size then
    some (some (.ok ⟨.eof, "", s.line⟩), { s with pos := s.pos + 1 })
  else
    match _h : readPiece { s with start := s.pos } with
    | none => none
    | some (.fault e, t) => some (some (.error e), t)
    | some (.token kind, t) => t.text?.map fun text => (some (.ok ⟨kind, text, t.line⟩), t)
    | some (.skipped, t) => t.next
termination_by s.bytes.size - s.pos
decreasing_by
  obtain ⟨hpos, hsource⟩ := readPiece_pos _h
  have hpos : s.pos < t.pos := hpos
  have hsize : t.bytes.size = s.bytes.size := congrArg (·.toByteArray.size) hsource
  show t.bytes.size - t.pos < s.bytes.size - s.pos
  omega

/-- A token or a fault that the scanner has yielded, and the bytes of its piece. -/
structure Visit where
  item : Except LexError Token
  start : Nat
  stop : Nat
  deriving Repr

theorem next_pos {item : Except LexError Token} (h : s.next = some (some item, t)) :
    s.pos ≤ s.bytes.size ∧ s.pos < t.pos ∧ t.source = s.source := by
  induction s using next.induct with
  | case1 s hs =>
    rw [next, if_pos hs] at h
    cases h
  | case2 s hs he =>
    rw [next, if_neg hs, if_pos he] at h
    cases h
    exact ⟨Nat.le_of_eq he, Nat.lt_succ_self _, rfl⟩
  | case3 s hs he hr =>
    rw [next, if_neg hs, if_neg he, hr] at h
    cases h
  | case4 s hs he e u hr =>
    rw [next, if_neg hs, if_neg he, hr] at h
    cases h
    have hstep := readPiece_pos hr
    exact ⟨Nat.le_of_not_lt hs, hstep⟩
  | case5 s hs he kind u hr =>
    rw [next, if_neg hs, if_neg he, hr] at h
    obtain ⟨text, -, h⟩ := Option.map_eq_some_iff.1 h
    cases h
    have hstep := readPiece_pos hr
    exact ⟨Nat.le_of_not_lt hs, hstep⟩
  | case6 s hs he u hr ih =>
    rw [next, if_neg hs, if_neg he, hr] at h
    obtain ⟨-, hpos, hsource⟩ := ih h
    obtain ⟨hpos', hsource'⟩ := readPiece_pos hr
    exact ⟨Nat.le_of_not_lt hs, Nat.lt_trans hpos' hpos, hsource.trans hsource'⟩

/-- All tokens and faults from here on and the scanner when it is over, none if a read or a cut
fails. -/
def run (s : Scanner) : Option (List Visit × Scanner) :=
  match _h : s.next with
  | none => none
  | some (none, t) => some ([], t)
  | some (some item, t) => t.run.map fun (visits, done) => (⟨item, t.start, t.pos⟩ :: visits, done)
termination_by s.bytes.size + 1 - s.pos
decreasing_by
  obtain ⟨hle, hpos, hsource⟩ := next_pos _h
  have hsize : t.bytes.size = s.bytes.size := congrArg (·.toByteArray.size) hsource
  show t.bytes.size + 1 - t.pos < s.bytes.size + 1 - s.pos
  omega

end Scanner

/-- The tokens and faults of a source in order; the last one is the end of the source. -/
def scan (source : String) : List (Except LexError Token) :=
  (Scanner.new source).run.elim [] fun (visits, _) => visits.map Scanner.Visit.item

end ClassScript
