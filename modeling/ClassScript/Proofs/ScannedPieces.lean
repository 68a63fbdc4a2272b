import ClassScript.Proofs.CharacterBytes

/-!
# The scanner cuts a source into its pieces

Between pieces the scanner stands between two characters (`Scanner.At`), and the piece that it reads
there is the first piece of the text that follows (`Scanner.readPiece_first`). So no read and no cut of
the scanner fails, and what it yields are the tokens and the faults among the pieces of the source, with
their places (`Scanner.run_eq`).
-/

set_option autoImplicit false

namespace ClassScript

namespace Lexer

/-! ## Kinds of pieces -/

/-- A character that starts no piece. -/
structure Unexpected (c : Char) : Prop where
  blank : isBlank c = false
  quote : c ≠ '"'
  digit : c.isDigit = false
  word : isWordStart c = false
  symbol : Symbol.ofChar? c = none

/-- What kinds of pieces there are: their texts, and what may follow them. -/
inductive Lexeme.Cut : Lexeme → List Char → Prop where
  | blank {c : Char} {after : List Char} : isBlank c = true → Lexeme.Cut ⟨.blank, [c]⟩ after
  | comment {body after : List Char} : '\n' ∉ body → (∀ c ∈ after.head?, c = '\n') →
      Lexeme.Cut ⟨.comment, '/' :: '/' :: body⟩ after
  | token {kind : TokenKind} {text after : List Char} : kind ≠ .eof →
      (∀ value, kind = .string value → text = '"' :: (value.toList ++ ['"'])) →
      Lexeme.Cut ⟨.token kind, text⟩ after
  | unexpected {c : Char} {after : List Char} : Unexpected c →
      Lexeme.Cut ⟨.fault (.unexpected c), [c]⟩ after
  | unterminated {body : List Char} : '"' ∉ body →
      Lexeme.Cut ⟨.fault .unterminatedString, '"' :: body⟩ []

variable {c : Char} {rest after : List Char}

theorem notMem_takeWhile {p : Char → Bool} (hp : p c = false) (text : List Char) :
    c ∉ text.takeWhile p := fun h => by
  have htrue := List.all_eq_true.1 List.all_takeWhile _ h
  rw [hp] at htrue
  cases htrue

theorem eq_of_dropWhile_ne {d : Char} {text : List Char}
    (h : text.dropWhile (· ≠ c) = d :: after) : d = c := by
  have hhead := List.head?_dropWhile_not (fun x => decide (x ≠ c)) text
  rw [h] at hhead
  simpa using hhead

/-- The end of the source is no piece of it. -/
theorem Lexeme.Cut.ne_eof {l : Lexeme} (h : l.Cut after) : l.item ≠ .token .eof := by
  cases h with
  | token hkind => exact fun he => hkind (Item.token.inj he)
  | _ => exact nofun

theorem Lexeme.Cut.symbol (symbol : Symbol) (text after : List Char) :
    Lexeme.Cut ⟨.token (.symbol symbol), text⟩ after :=
  .token nofun nofun

theorem Lexeme.Cut.number (value : Float) (text after : List Char) :
    Lexeme.Cut ⟨.token (.number value), text⟩ after :=
  .token nofun nofun

theorem stringAt_cut (rest : List Char) : (stringAt '"' rest).1.Cut (stringAt '"' rest).2 := by
  unfold stringAt
  split
  next => exact .unterminated (notMem_takeWhile rfl rest)
  next quote after hd =>
    obtain rfl := eq_of_dropWhile_ne hd
    refine .token (fun h => by cases h) fun value hv => ?_
    cases hv
    rw [String.toList_ofList]

theorem numberAt_cut (c : Char) (rest : List Char) : (numberAt c rest).1.Cut (numberAt c rest).2 := by
  unfold numberAt
  dsimp only
  split
  · split <;> exact .number ..
  · exact .number ..

theorem wordAt_cut (c : Char) (rest : List Char) : (wordAt c rest).1.Cut (wordAt c rest).2 := by
  unfold wordAt wordKind
  dsimp only
  split <;> exact .token nofun nofun

theorem commentAt_cut (hrest : rest.head? = some '/') :
    (commentAt '/' rest).1.Cut (commentAt '/' rest).2 := by
  obtain ⟨more, rfl⟩ := List.head?_eq_some_iff.1 hrest
  refine @Lexeme.Cut.comment (more.takeWhile (· ≠ '\n')) _ (notMem_takeWhile rfl more)
    fun c hc => ?_
  obtain ⟨tail, htail⟩ := List.head?_eq_some_iff.1 hc
  exact eq_of_dropWhile_ne htail

theorem charAt_cut (h : Symbol.ofChar? c = none → Unexpected c) (after : List Char) :
    (charAt c after).1.Cut (charAt c after).2 := by
  unfold charAt
  cases hc : Symbol.ofChar? c with
  | some symbol => exact .symbol ..
  | none => exact .unexpected (h hc)

theorem symbolAt_cut (h : Symbol.ofChar? c = none → Unexpected c) (rest : List Char) :
    (symbolAt c rest).1.Cut (symbolAt c rest).2 := by
  unfold symbolAt
  split
  · exact charAt_cut h []
  · split
    · exact .symbol ..
    · exact charAt_cut h _

/-- The first piece of a source is of one of the kinds. -/
theorem first_cut (c : Char) (rest : List Char) : (first c rest).1.Cut (first c rest).2 := by
  unfold first
  split
  next hblank => exact .blank hblank
  next hblank =>
    split
    next h =>
      obtain ⟨rfl, hrest⟩ := h
      exact commentAt_cut hrest
    next =>
      split
      next h =>
        subst h
        exact stringAt_cut rest
      next hquote =>
        split
        · exact numberAt_cut c rest
        next hdigit =>
          split
          · exact wordAt_cut c rest
          next hword =>
            exact symbolAt_cut (fun hsymbol => ⟨Bool.not_eq_true _ ▸ hblank, hquote,
              Bool.not_eq_true _ ▸ hdigit, Bool.not_eq_true _ ▸ hword, hsymbol⟩) rest

end Lexer

namespace Scanner

/-! ## Reading bytes -/

/-- These bytes follow. -/
def Reads (s : Scanner) (rest : List UInt8) : Prop :=
  ∀ i, s.bytes[s.pos + i]? = rest[i]?

/-- The scanner some bytes farther on, on the same line. -/
def move (s : Scanner) (n : Nat) : Scanner :=
  { s with pos := s.pos + n }

section

variable {s : Scanner} {b : UInt8} {rest : List UInt8}

theorem Reads.move {front : List UInt8} (h : s.Reads (front ++ rest)) :
    (s.move front.length).Reads rest := by
  intro i
  have hi := h (front.length + i)
  rw [← Nat.add_assoc, List.getElem?_append_right (Nat.le_add_right _ _),
    Nat.add_sub_cancel_left] at hi
  exact hi

theorem Reads.tail (h : s.Reads (b :: rest)) : (s.move 1).Reads rest :=
  @Reads.move s rest [b] h

theorem Reads.head (h : s.Reads rest) : s.bytes[s.pos]? = rest.head? := by
  rw [List.head?_eq_getElem?]
  exact h 0

theorem Reads.advance (h : s.Reads (b :: rest)) : s.advance = some (b, s.move 1) := by
  unfold Scanner.advance
  rw [h.head]
  rfl

theorem Reads.lt (h : s.Reads (b :: rest)) : ∃ hlt : s.pos < s.bytes.size, s.bytes[s.pos] = b :=
  getElem?_eq_some_iff.1 h.head

theorem Reads.not_lt (h : s.Reads []) : ¬ s.pos < s.bytes.size :=
  (getElem?_eq_none_iff s.bytes s.pos).1 h.head

theorem Reads.peek? (h : s.Reads rest) : s.peek? = rest.head?.map Char.ofUInt8 := by
  unfold Scanner.peek?
  rw [h.head]

theorem Reads.peekNext? (h : s.Reads (b :: rest)) :
    s.peekNext? = rest.head?.map Char.ofUInt8 := by
  unfold Scanner.peekNext?
  rw [List.head?_eq_getElem?]
  exact congrArg (Option.map Char.ofUInt8) (h 1)

theorem move_move (s : Scanner) (m n : Nat) : (s.move m).move n = s.move (m + n) := by
  simp [Scanner.move, Nat.add_assoc]

/-- Reads as many bytes as have the property. -/
theorem Reads.skipWhile (h : s.Reads rest) (p : UInt8 → Bool) :
    s.skipWhile p = s.move (rest.takeWhile p).length := by
  induction rest generalizing s with
  | nil =>
    rw [Scanner.skipWhile, dif_neg h.not_lt]
    rfl
  | cons b rest ih =>
    obtain ⟨hlt, hb⟩ := h.lt
    rw [Scanner.skipWhile, dif_pos hlt, hb, List.takeWhile_cons]
    cases p b with
    | true =>
      refine (ih h.tail).trans ?_
      rw [move_move, Nat.add_comm]
      rfl
    | false => rfl

/-- Reads up to a quote and counts the newlines before it. -/
theorem Reads.skipString (h : s.Reads rest) :
    s.skipString =
      { s.move (rest.takeWhile fun b => Char.ofUInt8 b ≠ '"').length with
        line := s.line +
          (rest.takeWhile fun b => Char.ofUInt8 b ≠ '"').countP fun b => Char.ofUInt8 b = '\n' } := by
  induction rest generalizing s with
  | nil =>
    rw [Scanner.skipString, dif_neg h.not_lt]
    rfl
  | cons b rest ih =>
    obtain ⟨hlt, hb⟩ := h.lt
    rw [Scanner.skipString, dif_pos hlt, hb, List.takeWhile_cons]
    by_cases hq : Char.ofUInt8 b = '"'
    · simp [hq, Scanner.move]
    · have hnext := @ih { s with
        pos := s.pos + 1
        line := if Char.ofUInt8 b = '\n' then s.line + 1 else s.line } h.tail
      rw [if_neg hq, hnext]
      by_cases hn : Char.ofUInt8 b = '\n' <;>
        simp [hq, hn, Scanner.move, Nat.add_assoc, Nat.add_comm]

end

/-! ## Between characters -/

theorem getElem?_toByteArray (before after : List UInt8) (i : Nat) :
    (before ++ after).toByteArray[before.length + i]? = after[i]? := by
  by_cases h : i < after.length
  · rw [getElem?_pos _ _ (by simpa using h), List.getElem_toByteArray, List.getElem?_eq_getElem h]
    simp
  · rw [getElem?_neg _ _ (by simpa using h), List.getElem?_eq_none (Nat.le_of_not_lt h)]

/-- The scanner stands in its source between two texts. -/
structure At (s : Scanner) (before after : List Char) : Prop where
  source : s.source = String.ofList (before ++ after)
  pos : s.pos = (encoded before).length

theorem At.reads {s : Scanner} {before after : List Char} (h : s.At before after) :
    s.Reads (encoded after) := by
  intro i
  obtain ⟨hsource, hpos⟩ := h
  show s.source.toByteArray[s.pos + i]? = _
  rw [hsource, hpos, toByteArray_ofList, encoded_append]
  exact getElem?_toByteArray _ _ _

/-- The scanner after a text. -/
def past (s : Scanner) (text : List Char) : Scanner :=
  { s with pos := s.pos + (encoded text).length, line := s.line + Lexer.newlines text }

section

variable {s : Scanner} {before after text : List Char} {c : Char} {p : Char → Bool}

theorem past_past (s : Scanner) (text more : List Char) :
    (s.past text).past more = s.past (text ++ more) := by
  simp [past, Lexer.newlines, Nat.add_assoc]

/-- The scanner stays on the line if the text has no newline. -/
theorem past_of_notMem (h : '\n' ∉ text) : s.past text = s.move (encoded text).length := by
  simp [past, move, Lexer.newlines, List.count_eq_zero_of_not_mem h]

theorem At.past (h : s.At before (text ++ after)) : (s.past text).At (before ++ text) after := by
  obtain ⟨hsource, hpos⟩ := h
  refine ⟨?_, ?_⟩
  · rw [List.append_assoc]
    exact hsource
  · rw [encoded_append, List.length_append, ← hpos]
    rfl

theorem At.advance (h : s.At before (c :: after)) (hc : isAscii c = true) :
    ∃ b, Char.ofUInt8 b = c ∧ s.advance = some (b, s.move 1) := by
  obtain ⟨b, he, hb⟩ := utf8EncodeChar_ascii hc
  have hreads := h.reads
  rw [encoded_cons, he] at hreads
  exact ⟨b, hb, hreads.advance⟩

theorem move_one (hc : isAscii c = true) (hn : c ≠ '\n') : s.move 1 = s.past [c] := by
  obtain ⟨b, he, -⟩ := utf8EncodeChar_ascii hc
  rw [past_of_notMem (by simpa using hn.symm), encoded_cons, he]
  rfl

theorem At.peek? (h : s.At before after) : s.peek? = after.head? ∨
    ∃ d c, s.peek? = some d ∧ after.head? = some c ∧ isAscii d = false ∧ isAscii c = false := by
  rw [h.reads.peek?]
  exact head?_encoded after

theorem At.skipWhile (h : s.At before after) (hp : Plain p) (hn : p '\n' = false) :
    (s.skipWhile fun b => p (Char.ofUInt8 b)) = s.past (after.takeWhile p) := by
  rw [h.reads.skipWhile, takeWhile_encoded hp, past_of_notMem (Lexer.notMem_takeWhile hn after)]

theorem At.skipString (h : s.At before after) :
    s.skipString = s.past (after.takeWhile (· ≠ '"')) := by
  have hquote : Plain (· ≠ '"') :=
    ⟨true, fun c hc => decide_eq_true (ne_of_isAscii hc rfl)⟩
  have hnewline : ∀ c, isAscii c = false → decide (c = '\n') = false := fun c hc =>
    decide_eq_false (ne_of_isAscii hc rfl)
  rw [h.reads.skipString, takeWhile_encoded hquote, countP_encoded hnewline]
  rfl

theorem At.slice? (h : s.At before (text ++ after)) :
    slice? s.source s.pos (s.past text).pos = some (String.ofList text) := by
  obtain ⟨hsource, hpos⟩ := h
  show ClassScript.slice? s.source s.pos (s.pos + (encoded text).length) = _
  rw [hsource, hpos, ← List.length_append, ← encoded_append, ← List.append_assoc]
  exact slice?_ofList before text after

theorem At.text? (h : s.At before (text ++ after)) (hstart : s.start = s.pos) :
    (s.past text).text? = some (String.ofList text) := by
  show ClassScript.slice? s.source s.start _ = _
  rw [hstart]
  exact h.slice?

end

/-! ## Reading pieces -/

/-- What the scanner makes of a piece that ends on a line. -/
def pieceOf (line : Nat) : Lexer.Item → Piece
  | .blank => .skipped
  | .comment => .skipped
  | .token kind => .token kind
  | .fault cause => .fault ⟨cause, line⟩

/-- The scanner reads the lexeme. -/
def Makes (s : Scanner) (l : Lexer.Lexeme) (r : Option (Piece × Scanner)) : Prop :=
  r = some (pieceOf (s.past l.text).line l.item, s.past l.text)

section

variable {s : Scanner} {before rest after : List Char} {c : Char}

theorem readWord_makes (h : s.At before (c :: rest)) (hstart : s.start = s.pos) :
    s.Makes (Lexer.wordAt c rest).1 (s.past [c]).readWord := by
  have hu : (s.past [c]).At (before ++ [c]) rest := h.past
  have htext : s.At before ((c :: rest.takeWhile Lexer.isWordPart) ++ rest.dropWhile Lexer.isWordPart) := by
    rw [List.cons_append, List.takeWhile_append_dropWhile]
    exact h
  unfold readWord
  rw [hu.skipWhile ⟨false, fun _ => not_isWordPart⟩ rfl, past_past, List.singleton_append]
  dsimp only
  rw [htext.text? hstart]
  simp [Makes, Lexer.wordAt, pieceOf]

/-- A point is read as such, and nothing else is read as a point. -/
theorem At.peek?_eq (h : s.At before after) {d : Char} (hd : isAscii d = true) :
    s.peek? = some d ↔ after.head? = some d := by
  rcases h.peek? with he | ⟨b, c, hb, hc, hb', hc'⟩
  · rw [he]
  · rw [hb, hc]
    simp [ne_of_isAscii hb' hd, ne_of_isAscii hc' hd]

theorem At.peekNext?_any {p : Char → Bool} (h : s.At before (c :: after)) (hc : isAscii c = true)
    (hp : ∀ c, isAscii c = false → p c = false) : s.peekNext?.any p = after.head?.any p := by
  obtain ⟨b, he, -⟩ := utf8EncodeChar_ascii hc
  have hreads : s.Reads (encoded (c :: after)) := h.reads
  rw [encoded_cons, he] at hreads
  rw [@Reads.peekNext? s b (encoded after) hreads]
  rcases head?_encoded after with heq | ⟨d, c, hd, hc, hd', hc'⟩
  · rw [heq]
  · rw [hd, hc, Option.any_some, Option.any_some, hp d hd', hp c hc']

/-- The point and the digits with which a text starts, if it starts with both. -/
def fractionOf (text : List Char) : List Char :=
  match text with
  | '.' :: d :: more => if d.isDigit then '.' :: d :: more.takeWhile Char.isDigit else []
  | _ => []

theorem skipDigits_eq (h : s.At before after) :
    s.skipWhile isDigit = s.past (after.takeWhile Char.isDigit) :=
  h.skipWhile ⟨false, fun _ => not_isDigit⟩ rfl

theorem past_nil (s : Scanner) : s.past [] = s := rfl

theorem skipFraction_eq (h : s.At before after) :
    s.skipFraction = some (s.past (fractionOf after)) := by
  unfold skipFraction
  by_cases hpoint : s.peek? = some '.'
  · obtain ⟨more, rfl⟩ := List.head?_eq_some_iff.1 ((h.peek?_eq rfl).1 hpoint)
    rw [h.peekNext?_any rfl fun _ => not_isDigit]
    obtain ⟨b, -, hb⟩ := h.advance rfl
    have hnext : (s.past ['.']).At (before ++ ['.']) more := h.past
    cases more with
    | nil => simp [fractionOf, past_nil]
    | cons d more =>
      by_cases hd : d.isDigit = true
      · rw [if_pos ⟨hpoint, hd⟩, hb, move_one (c := '.') rfl (by decide)]
        show some ((s.past ['.']).skipWhile isDigit) = _
        rw [skipDigits_eq hnext, past_past, List.takeWhile_cons_of_pos hd]
        simp [fractionOf, hd]
      · rw [if_neg fun hboth => hd hboth.2]
        simp [fractionOf, hd, past_nil]
  · rw [if_neg fun hboth => hpoint hboth.1]
    have hnone : fractionOf after = [] := by
      unfold fractionOf
      split
      · exact absurd ((h.peek?_eq rfl).2 rfl) hpoint
      · rfl
    rw [hnone, past_nil]

theorem numberOf_digits {whole : List Char} (h : ∀ d ∈ whole, d.isDigit = true) :
    numberOf whole = Lexer.literalValue whole [] := by
  have htake : (whole ++ []).takeWhile Char.isDigit = whole ++ [] := List.takeWhile_append_of_pos h
  have hdrop : (whole ++ []).dropWhile Char.isDigit = [] := List.dropWhile_append_of_pos h
  rw [List.append_nil] at htake hdrop
  rw [numberOf, htake, hdrop]
  rfl

theorem numberOf_fraction {whole : List Char} (h : ∀ d ∈ whole, d.isDigit = true)
    (fraction : List Char) :
    numberOf (whole ++ '.' :: fraction) = Lexer.literalValue whole fraction := by
  rw [numberOf, List.takeWhile_append_of_pos h, List.dropWhile_append_of_pos h,
    List.takeWhile_cons_of_neg (by decide), List.dropWhile_cons_of_neg (by decide), List.append_nil]
  rfl

/-- A number is its digits and its fraction. -/
theorem numberAt_eq {c : Char} {rest whole : List Char} (hc : c.isDigit = true)
    (hwhole : c :: rest.takeWhile Char.isDigit = whole) :
    (Lexer.numberAt c rest).1 =
      let text := whole ++ fractionOf (rest.dropWhile Char.isDigit)
      ⟨.token (.number (numberOf text)), text⟩ := by
  have hdigits : ∀ d ∈ whole, d.isDigit = true :=
    hwhole ▸ List.forall_mem_cons.2 ⟨hc, List.all_eq_true.1 List.all_takeWhile⟩
  unfold Lexer.numberAt fractionOf
  rw [hwhole]
  generalize rest.dropWhile Char.isDigit = after
  dsimp only
  split
  next d more =>
    by_cases hd : d.isDigit = true
    · simp only [if_pos hd, numberOf_fraction hdigits]
    · simp only [if_neg hd, List.append_nil, numberOf_digits hdigits]
  next => simp only [List.append_nil, numberOf_digits hdigits]

theorem readNumber_makes (h : s.At before (c :: rest)) (hstart : s.start = s.pos)
    (hc : c.isDigit = true) :
    s.Makes (Lexer.numberAt c rest).1 (s.past [c]).readNumber := by
  have hu : (s.past [c]).At (before ++ [c]) rest := h.past
  have hu' : ((s.past [c]).past (rest.takeWhile Char.isDigit)).At _
      (rest.dropWhile Char.isDigit) :=
    At.past (by rwa [List.takeWhile_append_dropWhile])
  have hlost := Lexer.numberAt_text c rest
  rw [numberAt_eq hc rfl] at hlost ⊢
  dsimp only at hlost
  rw [← hlost] at h
  have htext := h.text? hstart
  unfold readNumber
  rw [skipDigits_eq hu, skipFraction_eq hu', past_past, past_past, List.singleton_append]
  rw [List.cons_append] at htext ⊢
  simp [Makes, pieceOf, htext]

theorem At.lt (h : s.At before (c :: rest)) : s.pos < s.bytes.size := by
  obtain ⟨n, bytes, he, -⟩ := utf8EncodeChar_lead c
  have hreads : s.Reads (encoded (c :: rest)) := h.reads
  rw [encoded_cons, he, List.cons_append] at hreads
  exact hreads.lt.1

theorem At.not_lt (h : s.At before []) : ¬ s.pos < s.bytes.size :=
  Reads.not_lt (h.reads : s.Reads (encoded []))

theorem readString_makes (h : s.At before ('"' :: rest)) (hstart : s.start = s.pos) :
    s.Makes (Lexer.stringAt '"' rest).1 (s.past ['"']).readString := by
  have hu : (s.past ['"']).At (before ++ ['"']) rest := h.past
  have hparts := List.takeWhile_append_dropWhile (p := (· ≠ '"')) (l := rest)
  unfold readString Lexer.stringAt
  rw [hu.skipString]
  generalize rest.takeWhile (· ≠ '"') = value at hparts ⊢
  cases hafter : rest.dropWhile (· ≠ '"') with
  | nil =>
    rw [hafter] at hparts
    rw [← hparts] at hu
    dsimp only
    rw [if_neg hu.past.not_lt, past_past]
    rfl
  | cons quote after =>
    rw [hafter] at hparts
    obtain rfl := Lexer.eq_of_dropWhile_ne hafter
    rw [← hparts] at hu
    have hend : ((s.past ['"']).past value).At _ ('"' :: after) := hu.past
    obtain ⟨b, -, hb⟩ := hend.advance rfl
    dsimp only
    have hvalue := hu.slice?
    rw [if_pos hend.lt, hb, move_one (c := '"') rfl (by decide)]
    show (slice? s.source (s.start + 1) (((s.past ['"']).past value).pos + 1 - 1)).bind _ = _
    rw [hstart, Nat.add_sub_cancel]
    show (slice? (s.past ['"']).source (s.past ['"']).pos _).bind _ = _
    rw [hvalue, past_past, past_past]
    rfl

theorem readComment_makes (h : s.At before ('/' :: rest)) (hslash : rest.head? = some '/') :
    ∃ b u, (s.past ['/']).advance = some (b, u) ∧ s.Makes (Lexer.commentAt '/' rest).1
      (some (.skipped, u.skipWhile fun b => Char.ofUInt8 b ≠ '\n')) := by
  obtain ⟨more, rfl⟩ := List.head?_eq_some_iff.1 hslash
  have hu : (s.past ['/']).At (before ++ ['/']) ('/' :: more) := h.past
  obtain ⟨b, -, hb⟩ := hu.advance rfl
  rw [move_one (c := '/') rfl (by decide), past_past, List.singleton_append] at hb
  have hv : (s.past ['/', '/']).At (before ++ ['/', '/']) more := h.past
  have hplain : Plain (· ≠ '\n') := ⟨true, fun c hc => decide_eq_true (ne_of_isAscii hc rfl)⟩
  refine ⟨b, _, hb, ?_⟩
  rw [hv.skipWhile hplain rfl, past_past]
  rfl

theorem isAscii_of_ofChar? {symbol : Symbol} (h : Symbol.ofChar? c = some symbol) :
    isAscii c = true := by
  unfold Symbol.ofChar? at h
  split at h <;> first | rfl | cases h

theorem isAscii_of_ofPair? {d : Char} {symbol : Symbol} (h : Symbol.ofPair? c d = some symbol) :
    isAscii c = true ∧ isAscii d = true := by
  unfold Symbol.ofPair? at h
  split at h <;> first | exact ⟨rfl, rfl⟩ | cases h

theorem ofPair?_newline (c : Char) : Symbol.ofPair? c '\n' = none := by
  unfold Symbol.ofPair?
  split <;> first | rfl | contradiction

theorem ofChar?_not_isAscii (h : isAscii c = false) : Symbol.ofChar? c = none :=
  Option.eq_none_iff_forall_ne_some.2 fun _ hs =>
    Bool.false_ne_true (h.symm.trans (isAscii_of_ofChar? hs))

theorem ofPair?_not_isAscii {d : Char} (h : isAscii c = false ∨ isAscii d = false) :
    Symbol.ofPair? c d = none :=
  Option.eq_none_iff_forall_ne_some.2 fun _ hs => by
    have hboth := isAscii_of_ofPair? hs
    rw [hboth.1, hboth.2, or_self] at h
    cases h

/-- A character that is no piece is read to its last byte and no farther. -/
theorem readUnexpected_makes (h : s.At before (c :: rest)) (hstart : s.start = s.pos)
    (hn : c ≠ '\n') :
    s.Makes ⟨.fault (.unexpected c), [c]⟩ (s.move 1).readUnexpected := by
  obtain ⟨n, bytes, he, -, hbytes, -⟩ := utf8EncodeChar_lead c
  have hreads : s.Reads (encoded (c :: rest)) := h.reads
  rw [encoded_cons, he, List.cons_append] at hreads
  have htake : (bytes ++ encoded rest).takeWhile isContinuation = bytes := by
    rw [List.takeWhile_append_of_pos hbytes, takeWhile_isContinuation, List.append_nil]
  have hpast : (s.move 1).skipWhile isContinuation = s.past [c] := by
    rw [hreads.tail.skipWhile, htake, move_move, past_of_notMem (by simpa using hn.symm), encoded_cons,
      he, encoded_nil, List.append_nil, List.length_cons, Nat.add_comm]
  have htext : (s.past [c]).text? = some (String.ofList [c]) := @At.text? s before rest [c] h hstart
  unfold readUnexpected
  rw [hpast]
  simp [htext, Makes, pieceOf]

theorem readSymbol_makes (h : s.At before (c :: rest)) (hstart : s.start = s.pos)
    (hc : isAscii c = true) (hn : c ≠ '\n') :
    s.Makes (Lexer.symbolAt c rest).1 ((s.past [c]).readSymbol c) := by
  have hu : (s.past [c]).At (before ++ [c]) rest := h.past
  have hpair : (s.past [c]).peek?.bind (Symbol.ofPair? c) = rest.head?.bind (Symbol.ofPair? c) := by
    rcases hu.peek? with he | ⟨d, d', hd, hd', hascii, hascii'⟩
    · rw [he]
    · rw [hd, hd', Option.bind_some, Option.bind_some, ofPair?_not_isAscii (.inr hascii),
        ofPair?_not_isAscii (.inr hascii')]
  have hsymbol : Lexer.symbolAt c rest =
      ((rest.head?.bind (Symbol.ofPair? c)).elim (Lexer.charAt c rest) fun symbol =>
        (⟨.token (.symbol symbol), c :: rest.take 1⟩, rest.tail)) := by
    unfold Lexer.symbolAt
    cases rest with
    | nil => rfl
    | cons d after => cases hp : Symbol.ofPair? c d <;> simp [hp]
  unfold readSymbol
  rw [hpair, hsymbol]
  cases hp : rest.head?.bind (Symbol.ofPair? c) with
  | none =>
    rw [Option.elim_none]
    dsimp only
    unfold Lexer.charAt
    cases Symbol.ofChar? c with
    | some symbol => rfl
    | none => exact move_one hc hn ▸ readUnexpected_makes h hstart hn
  | some symbol =>
    cases rest with
    | nil => cases hp
    | cons d after =>
      replace hp : Symbol.ofPair? c d = some symbol := hp
      have hd := (isAscii_of_ofPair? hp).2
      obtain ⟨b, -, hb⟩ := hu.advance hd
      have hline : d ≠ '\n' := by
        rintro rfl
        rw [ofPair?_newline] at hp
        cases hp
      rw [Option.elim_some]
      dsimp only
      rw [hb, move_one hd hline, past_past]
      rfl

/-- What starts with a byte that is not ASCII is no piece. -/
theorem readPiece_not_isAscii {b : UInt8} (h : s.advance = some (b, s.move 1))
    (hb : isAscii (Char.ofUInt8 b) = false) : s.readPiece = (s.move 1).readUnexpected := by
  have hsymbol : (s.move 1).readSymbol (Char.ofUInt8 b) = (s.move 1).readUnexpected := by
    have hpair : (s.move 1).peek?.bind (Symbol.ofPair? (Char.ofUInt8 b)) = none :=
      Option.bind_eq_none_iff.2 fun _ _ => ofPair?_not_isAscii (.inl hb)
    unfold readSymbol
    rw [hpair, ofChar?_not_isAscii hb]
  unfold readPiece
  rw [h]
  simp [ne_of_isAscii hb (d := '\n') rfl, ne_of_isAscii hb (d := '/') rfl,
    ne_of_isAscii hb (d := '"') rfl, not_isBlank hb, not_isDigit hb, not_isWordStart hb, hsymbol]

theorem first_not_isAscii (hc : isAscii c = false) :
    (Lexer.first c rest).1 = ⟨.fault (.unexpected c), [c]⟩ := by
  have hchar (after : List Char) : (Lexer.charAt c after).1 = ⟨.fault (.unexpected c), [c]⟩ := by
    rw [Lexer.charAt, ofChar?_not_isAscii hc]
  have hsymbol : (Lexer.symbolAt c rest).1 = ⟨.fault (.unexpected c), [c]⟩ := by
    unfold Lexer.symbolAt
    split
    · exact hchar []
    · rw [ofPair?_not_isAscii (.inl hc)]
      exact hchar _
  simp [Lexer.first, ne_of_isAscii hc (d := '/') rfl, ne_of_isAscii hc (d := '"') rfl, not_isBlank hc,
    not_isDigit hc, not_isWordStart hc, hsymbol]

/-- The scanner reads the first piece of what follows, if it starts there. -/
theorem readPiece_first (h : s.At before (c :: rest)) (hstart : s.start = s.pos) :
    s.Makes (Lexer.first c rest).1 s.readPiece := by
  cases hc : isAscii c with
  | true =>
    obtain ⟨b, hb, hadvance⟩ := h.advance hc
    unfold readPiece Lexer.first
    rw [hadvance]
    show s.Makes _ (if Char.ofUInt8 b = '\n' then _ else _)
    rw [hb]
    by_cases hn : c = '\n'
    · subst hn
      rfl
    · rw [if_neg hn, move_one hc hn]
      have hu : (s.past [c]).At (before ++ [c]) rest := h.past
      by_cases hblank : Lexer.isBlank c = true
      · rw [if_pos hblank, if_pos hblank]
        rfl
      rw [if_neg hblank, if_neg hblank]
      have hslash : (s.past [c]).peek? = some '/' ↔ rest.head? = some '/' := hu.peek?_eq rfl
      simp only [hslash]
      by_cases hcomment : c = '/' ∧ rest.head? = some '/'
      · rw [if_pos hcomment, if_pos hcomment]
        obtain ⟨rfl, hrest⟩ := hcomment
        obtain ⟨b', u, hnext, hmakes⟩ := readComment_makes h hrest
        rw [hnext]
        exact hmakes
      rw [if_neg hcomment, if_neg hcomment]
      by_cases hquote : c = '"'
      · subst hquote
        exact readString_makes h hstart
      rw [if_neg hquote, if_neg hquote]
      by_cases hdigit : c.isDigit = true
      · rw [if_pos hdigit, if_pos hdigit]
        exact readNumber_makes h hstart hdigit
      rw [if_neg hdigit, if_neg hdigit]
      by_cases hword : Lexer.isWordStart c = true
      · rw [if_pos hword, if_pos hword]
        exact readWord_makes h hstart
      rw [if_neg hword, if_neg hword]
      exact readSymbol_makes h hstart hc hn
  | false =>
    obtain ⟨n, bytes, he, -⟩ := utf8EncodeChar_lead c
    have hfirst : isAscii (Char.ofUInt8 (UInt8.ofNat n)) = false :=
      isAscii_of_mem hc (he ▸ List.mem_cons_self ..)
    have hreads : s.Reads (encoded (c :: rest)) := h.reads
    rw [encoded_cons, he, List.cons_append] at hreads
    rw [readPiece_not_isAscii hreads.advance hfirst, first_not_isAscii hc]
    exact readUnexpected_makes h hstart (ne_of_isAscii hc rfl)

end

/-! ## The whole scan -/

/-- What the scanner yields for pieces of which the first starts at a byte of a line. The end of the
source is a token of its own, and its piece starts where the last one started. -/
def visits (start pos line : Nat) : List Lexer.Lexeme → List Visit
  | [] => [⟨.ok ⟨.eof, "", line⟩, start, pos + 1⟩]
  | l :: rest =>
    let stop := pos + (encoded l.text).length
    let last := line + Lexer.newlines l.text
    match l.item with
    | .blank => visits pos stop last rest
    | .comment => visits pos stop last rest
    | .token kind => ⟨.ok ⟨kind, String.ofList l.text, last⟩, pos, stop⟩ :: visits pos stop last rest
    | .fault cause => ⟨.error ⟨cause, last⟩, pos, stop⟩ :: visits pos stop last rest

theorem visits_items (start pos line : Nat) (pieces : List Lexer.Lexeme) :
    (visits start pos line pieces).map Visit.item = Lexer.items line pieces := by
  induction pieces generalizing start pos line with
  | nil => rfl
  | cons l rest ih =>
    unfold visits Lexer.items
    cases l.item <;> simp [ih]

section

variable {s : Scanner} {before rest after : List Char} {c : Char}

theorem At.size_eq (h : s.At before after) : s.bytes.size = s.pos + (encoded after).length := by
  obtain ⟨hsource, hpos⟩ := h
  show s.source.toByteArray.size = _
  rw [hsource, ← length_encoded, encoded_append, List.length_append, hpos]

theorem At.next_nil (h : s.At before []) :
    s.next = some (some (.ok ⟨.eof, "", s.line⟩), { s with pos := s.pos + 1 }) := by
  have hsize : s.bytes.size = s.pos := h.size_eq
  rw [Scanner.next, if_neg (Nat.not_lt_of_le (Nat.le_of_eq hsize.symm)), if_pos hsize.symm]

/-- The scanner yields the first piece of what follows or goes on after it. -/
theorem At.next_cons (h : s.At before (c :: rest)) :
    let l := (Lexer.first c rest).1
    let t := { s with start := s.pos }.past l.text
    s.next = match l.item with
      | .blank => t.next
      | .comment => t.next
      | .token kind => some (some (.ok ⟨kind, String.ofList l.text, t.line⟩), t)
      | .fault cause => some (some (.error ⟨cause, t.line⟩), t) := by
  have hu : { s with start := s.pos }.At before (c :: rest) := ⟨h.source, h.pos⟩
  have hpiece := readPiece_first hu rfl
  have hl : { s with start := s.pos }.At before
      ((Lexer.first c rest).1.text ++ (Lexer.first c rest).2) := by rwa [Lexer.first_text]
  have htext := hl.text? rfl
  dsimp only
  rw [Scanner.next, if_neg (Nat.not_lt_of_le (Nat.le_of_lt h.lt)), if_neg (Nat.ne_of_lt h.lt), hpiece]
  cases (Lexer.first c rest).1.item with
  | blank => rfl
  | comment => rfl
  | token kind => simp [pieceOf, htext]
  | fault cause => rfl

theorem run_of_next_some {item : Except LexError Token} {t : Scanner}
    (h : s.next = some (some item, t)) :
    s.run = t.run.map fun (visits, done) => (⟨item, t.start, t.pos⟩ :: visits, done) := by
  rw [run, h]

theorem run_of_next_none {t : Scanner} (h : s.next = some (none, t)) : s.run = some ([], t) := by
  rw [run, h]

theorem run_of_next_eq {t : Scanner} (h : s.next = t.next) : s.run = t.run := by
  rw [run, h, ← run]

theorem next_over (h : s.bytes.size < s.pos) : s.next = some (none, s) := by
  rw [Scanner.next, if_pos h]

/-- The scanner fails nowhere: it yields the tokens and the faults among the pieces of what follows. -/
theorem run_eq (h : s.At before after) :
    ∃ done, s.run = some (visits s.start s.pos s.line (Lexer.lexemes after), done) ∧
      done.bytes.size < done.pos := by
  induction after using Lexer.lexemes.induct generalizing s before with
  | case1 =>
    have hdone : ({ s with pos := s.pos + 1 } : Scanner).bytes.size < s.pos + 1 :=
      Nat.lt_succ_of_le (Nat.le_of_eq h.size_eq)
    refine ⟨_, ?_, hdone⟩
    rw [run_of_next_some h.next_nil, run_of_next_none (next_over hdone), Lexer.lexemes, visits]
    rfl
  | case2 c rest ih =>
    have hnext := h.next_cons
    have ht : ({ s with start := s.pos }.past (Lexer.first c rest).1.text).At
        (before ++ (Lexer.first c rest).1.text) (Lexer.first c rest).2 :=
      At.past ⟨(Lexer.first_text c rest).symm ▸ h.source, h.pos⟩
    obtain ⟨done, hrun, hdone⟩ := ih ht
    refine ⟨done, ?_, hdone⟩
    rw [Lexer.lexemes, visits]
    dsimp only at hnext ⊢
    cases hitem : (Lexer.first c rest).1.item <;> rw [hitem] at hnext <;> dsimp only at hnext ⊢
    case blank => rw [run_of_next_eq hnext, hrun]; rfl
    case comment => rw [run_of_next_eq hnext, hrun]; rfl
    case token kind => rw [run_of_next_some hnext, hrun]; rfl
    case fault cause => rw [run_of_next_some hnext, hrun]; rfl

theorem new_at (source : String) : (new source).At [] source.toList :=
  ⟨String.ofList_toList.symm, rfl⟩

end

end Scanner

/-- A scan gives the tokens and the faults among the pieces of the source. -/
theorem scan_eq (source : String) : scan source = Lexer.items 1 (Lexer.lexemes source.toList) := by
  obtain ⟨done, hrun, -⟩ := Scanner.run_eq (Scanner.new_at source)
  unfold scan
  rw [hrun]
  exact Scanner.visits_items ..

end ClassScript
