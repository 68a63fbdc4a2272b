import ClassScript.Proofs.JoinedSources

/-!
# Tokens on their own

A token ends where its text ends, whatever stood behind it: before a blank and before the end of the
source its text is cut as the same token (`Lexer.first_apart`). So the texts of the tokens of a source
with blanks between them are the same tokens again (`rescan_tokens`).
-/

set_option autoImplicit false

namespace ClassScript

namespace Lexer

/-! ## Texts in front of blanks -/

/-- The text is empty or starts with a blank. -/
def Apart (tail : List Char) : Prop :=
  ∀ d ∈ tail.head?, isBlank d = true

theorem Apart.nil : Apart [] :=
  fun _ h => nomatch h

theorem Apart.cons {d : Char} {tail : List Char} (h : isBlank d = true) : Apart (d :: tail) := by
  rintro _ ⟨⟩
  exact h

section

variable {c : Char} {rest tail : List Char} {kind : TokenKind}

theorem isBlank_iff {d : Char} : isBlank d = true ↔ d = ' ' ∨ d = '\t' ∨ d = '\r' ∨ d = '\n' := by
  simp [isBlank]

/-- Characters with a property in front of a text that does not start with such a character. -/
theorem takeWhile_front {p : Char → Bool} {front : List Char} (hfront : ∀ d ∈ front, p d = true)
    (htail : ∀ d ∈ tail.head?, p d = false) :
    (front ++ tail).takeWhile p = front ∧ (front ++ tail).dropWhile p = tail := by
  have hstop : tail.takeWhile p = [] ∧ tail.dropWhile p = tail := by
    cases tail with
    | nil => exact ⟨rfl, rfl⟩
    | cons d tail =>
      have hd : p d = false := htail d rfl
      exact ⟨List.takeWhile_cons_of_neg (by simp [hd]), List.dropWhile_cons_of_neg (by simp [hd])⟩
  rw [List.takeWhile_append_of_pos hfront, List.dropWhile_append_of_pos hfront, hstop.1, hstop.2]
  exact ⟨List.append_nil _, rfl⟩

theorem mem_takeWhile {p : Char → Bool} {l : List Char} : ∀ d ∈ l.takeWhile p, p d = true :=
  fun d hd => List.all_eq_true.1 List.all_takeWhile d hd

/-- A property that no blank has ends before a text that stands apart. -/
theorem takeWhile_apart {p : Char → Bool} (hp : ∀ d, isBlank d = true → p d = false)
    (h : Apart tail) (l : List Char) :
    (l.takeWhile p ++ tail).takeWhile p = l.takeWhile p ∧
      (l.takeWhile p ++ tail).dropWhile p = tail :=
  takeWhile_front mem_takeWhile fun d hd => hp d (h d hd)

theorem isDigit_blank (d : Char) (h : isBlank d = true) : d.isDigit = false := by
  rcases isBlank_iff.1 h with rfl | rfl | rfl | rfl <;> rfl

theorem isWordPart_blank (d : Char) (h : isBlank d = true) : isWordPart d = false := by
  rcases isBlank_iff.1 h with rfl | rfl | rfl | rfl <;> rfl

theorem ofPair?_blank {d : Char} (h : isBlank d = true) : Symbol.ofPair? c d = none := by
  rcases isBlank_iff.1 h with rfl | rfl | rfl | rfl <;> unfold Symbol.ofPair? <;>
    split <;> first | rfl | contradiction

/-! ## One token -/

/-- The piece is cut again from its text before any text that stands apart. -/
def Again (scanner : List Char → Lexeme × List Char) (c : Char) (l : Lexeme) : Prop :=
  ∃ text, l.text = c :: text ∧ ∀ tail, Apart tail → scanner (text ++ tail) = (l, tail)

/-- A string with this value. -/
theorem stringAt_value {value after : List Char} (h : ∀ d ∈ value, decide (d ≠ '"') = true) :
    stringAt c (value ++ '"' :: after) =
      (⟨.token (.string (String.ofList value)), c :: (value ++ ['"'])⟩, after) := by
  obtain ⟨htake, hdrop⟩ := @takeWhile_front ('"' :: after) _ value h (by rintro _ ⟨⟩; rfl)
  unfold stringAt
  dsimp only
  rw [htake, hdrop]

theorem stringAt_again (h : (stringAt c rest).1.item = .token kind) :
    Again (stringAt c) c (stringAt c rest).1 := by
  have hrest := List.takeWhile_append_dropWhile (p := (· ≠ '"')) (l := rest)
  cases hd : rest.dropWhile (· ≠ '"') with
  | nil =>
    unfold stringAt at h
    dsimp only at h
    rw [hd] at h
    cases h
  | cons quote after =>
    obtain rfl := eq_of_dropWhile_ne hd
    rw [hd] at hrest
    rw [← hrest, stringAt_value mem_takeWhile]
    refine ⟨_, rfl, fun tail _ => ?_⟩
    rw [List.append_assoc]
    exact stringAt_value mem_takeWhile

theorem numberAt_again : Again (numberAt c) c (numberAt c rest).1 := by
  by_cases h : ∃ d more, rest.dropWhile Char.isDigit = '.' :: d :: more ∧ d.isDigit = true
  · obtain ⟨d, more, hafter, hd⟩ := h
    rw [numberAt_fraction hafter hd]
    refine ⟨rest.takeWhile Char.isDigit ++ '.' :: d :: more.takeWhile Char.isDigit, rfl,
      fun tail htail => ?_⟩
    obtain ⟨htake, hdrop⟩ := takeWhile_apart isDigit_blank htail more
    obtain ⟨hwhole, hpoint⟩ := @takeWhile_front ('.' :: d :: (more.takeWhile Char.isDigit ++ tail))
      Char.isDigit (rest.takeWhile Char.isDigit) mem_takeWhile (by rintro _ ⟨⟩; rfl)
    rw [List.append_assoc, List.cons_append, List.cons_append, numberAt_fraction hpoint hd, hwhole,
      htake, hdrop]
  · have hwhole : ∀ d more, rest.dropWhile Char.isDigit = '.' :: d :: more → d.isDigit = false :=
      fun d more he => Bool.eq_false_iff.2 fun hd => h ⟨d, more, he, hd⟩
    rw [numberAt_whole hwhole]
    refine ⟨_, rfl, fun tail htail => ?_⟩
    obtain ⟨htake, hdrop⟩ := takeWhile_apart isDigit_blank htail rest
    rw [numberAt_whole, htake, hdrop]
    rw [hdrop]
    rintro d more rfl
    cases htail '.' rfl

theorem wordAt_again : Again (wordAt c) c (wordAt c rest).1 := by
  refine ⟨_, rfl, fun tail htail => ?_⟩
  obtain ⟨htake, hdrop⟩ := takeWhile_apart isWordPart_blank htail rest
  unfold wordAt
  rw [htake, hdrop]

theorem symbolAt_pair {d : Char} {after : List Char} {s : Symbol} (h : Symbol.ofPair? c d = some s) :
    symbolAt c (d :: after) = (⟨.token (.symbol s), [c, d]⟩, after) := by
  unfold symbolAt
  dsimp only
  rw [h]

theorem symbolAt_single (h : ∀ d ∈ rest.head?, Symbol.ofPair? c d = none) :
    symbolAt c rest = charAt c rest := by
  cases rest with
  | nil => rfl
  | cons d after =>
    unfold symbolAt
    dsimp only
    rw [h d rfl]

theorem symbolAt_again (h : (symbolAt c rest).1.item = .token kind) :
    Again (symbolAt c) c (symbolAt c rest).1 := by
  by_cases hpair : ∃ d ∈ rest.head?, ∃ s, Symbol.ofPair? c d = some s
  · obtain ⟨d, hd, s, hs⟩ := hpair
    obtain ⟨after, rfl⟩ := List.head?_eq_some_iff.1 hd
    rw [symbolAt_pair hs]
    exact ⟨[d], rfl, fun tail _ => symbolAt_pair hs⟩
  · rw [symbolAt_single fun d hd => Option.eq_none_iff_forall_ne_some.2 fun s hs =>
      hpair ⟨d, hd, s, hs⟩] at h ⊢
    unfold charAt at h ⊢
    cases hs : Symbol.ofChar? c with
    | none => rw [hs] at h; cases h
    | some s =>
      refine ⟨[], rfl, fun tail htail => ?_⟩
      rw [List.nil_append, symbolAt_single fun d hd => ofPair?_blank (htail d hd), charAt, hs]

/-- The piece that starts with `c`, which is no blank, unless it is a comment. -/
def tokenAt (c : Char) : List Char → Lexeme × List Char :=
  if c = '"' then stringAt c
  else if c.isDigit then numberAt c
  else if isWordStart c then wordAt c
  else symbolAt c

theorem first_eq_tokenAt (hblank : isBlank c = false)
    (hcomment : ¬ (c = '/' ∧ rest.head? = some '/')) : first c rest = tokenAt c rest := by
  unfold first tokenAt
  rw [if_neg (by simp [hblank]), if_neg hcomment]
  repeat' split
  all_goals rfl

theorem tokenAt_again (h : (tokenAt c rest).1.item = .token kind) :
    Again (tokenAt c) c (tokenAt c rest).1 := by
  unfold tokenAt at h ⊢
  split at h
  next hc =>
    rw [if_pos hc]
    exact stringAt_again h
  next hc =>
    rw [if_neg hc]
    split at h
    next hc =>
      rw [if_pos hc]
      exact numberAt_again
    next hc =>
      rw [if_neg hc]
      split at h
      next hc =>
        rw [if_pos hc]
        exact wordAt_again
      next hc =>
        rw [if_neg hc]
        exact symbolAt_again h

/-- A slash in front of anything but a slash is a token. -/
theorem tokenAt_slash (rest : List Char) :
    tokenAt '/' rest = (⟨.token (.symbol .slash), ['/']⟩, rest) :=
  symbolAt_single fun d _ => by
    unfold Symbol.ofPair?
    split <;> first | rfl | contradiction

/-- A token is cut again from its text before a blank and before the end of the source. A slash is the
one token that a comment could swallow, and no blank goes on with a comment. -/
theorem first_again (h : (first c rest).1.item = .token kind) :
    Again (first c) c (first c rest).1 := by
  have hblank : isBlank c = false := Bool.eq_false_iff.2 fun hc => by
    rw [first, if_pos hc] at h
    cases h
  have hcomment : ¬ (c = '/' ∧ rest.head? = some '/') := fun hc => by
    rw [first, if_neg (by simp [hblank]), if_pos hc] at h
    cases h
  rw [first_eq_tokenAt hblank hcomment] at h ⊢
  obtain ⟨text, htext, hagain⟩ := tokenAt_again h
  refine ⟨text, htext, fun tail htail => ?_⟩
  rw [first_eq_tokenAt hblank, hagain tail htail]
  rintro ⟨rfl, hhead⟩
  rw [tokenAt_slash] at htext
  obtain rfl : text = [] := by simpa using htext.symm
  cases htail '/' hhead

end

end Lexer

/-! ## All tokens -/

open Lexer

/-- The text of the token is cut as the token before any text that stands apart. -/
def Token.Lasting (t : Token) : Prop :=
  ∃ c, Again (first c) c ⟨.token t.kind, t.lexeme.toList⟩

theorem tokens_lasting (line : Nat) (source : List Char) :
    ∀ t ∈ tokens line (lexemes source), t.Lasting := by
  induction source using lexemes.induct generalizing line with
  | case1 =>
    rw [lexemes]
    exact fun t ht => (List.not_mem_nil ht).elim
  | case2 c rest ih =>
    rw [lexemes, tokens]
    split
    next kind hkind =>
      have hagain := first_again hkind
      generalize (first c rest).1 = l at hkind hagain ⊢
      obtain ⟨item, text⟩ := l
      cases hkind
      rw [List.forall_mem_cons]
      refine ⟨⟨c, ?_⟩, ih _⟩
      rw [String.toList_ofList]
      exact hagain
    · exact ih _

/-- A token or a fault on no line. -/
def withoutLine (item : Except LexError Token) : Except LexError Token :=
  item.map (Token.onLine fun _ => 0)

/-- The text of a token is scanned as the token, and what stands apart behind it on its own. -/
theorem Token.Lasting.items {t : Token} (h : t.Lasting) {tail : List Char} (htail : Apart tail)
    (line : Nat) :
    (items line (lexemes (t.lexeme.toList ++ tail))).map withoutLine =
      withoutLine (.ok t) ::
        (items (line + newlines t.lexeme.toList) (lexemes tail)).map withoutLine := by
  obtain ⟨c, text, htext, hagain⟩ := h
  obtain ⟨kind, lexeme, _⟩ := t
  have htext : lexeme.toList = c :: text := htext
  have hpieces : lexemes (lexeme.toList ++ tail) = ⟨.token kind, lexeme.toList⟩ :: lexemes tail := by
    have hfirst : first c (text ++ tail) = (⟨.token kind, lexeme.toList⟩, tail) := hagain tail htail
    rw [show lexeme.toList ++ tail = c :: (text ++ tail) from congrArg (· ++ tail) htext, lexemes,
      hfirst]
  rw [hpieces]
  show withoutLine (.ok ⟨kind, String.ofList lexeme.toList, _⟩) :: _ = _
  rw [String.ofList_toList]
  rfl

/-- Texts of tokens with a space between any two of them are scanned as the tokens. -/
theorem items_spaced {ts : List Token} (h : ∀ t ∈ ts, t.Lasting) (line : Nat) :
    (items line (lexemes (" ".intercalate (ts.map Token.lexeme)).toList)).map withoutLine =
      ((ts ++ [Token.mk .eof "" 0]).map Except.ok).map withoutLine := by
  rw [String.toList_intercalate, List.map_map, show " ".toList = [' '] from rfl]
  induction ts generalizing line with
  | nil => simp [lexemes, items, withoutLine, Except.map, Token.onLine]
  | cons t rest ih =>
    obtain ⟨ht, hrest⟩ := List.forall_mem_cons.1 h
    cases rest with
    | nil =>
      have hitems := ht.items .nil line
      rw [List.append_nil] at hitems
      simpa [lexemes, items, withoutLine, Except.map, Token.onLine] using hitems
    | cons u rest =>
      have hspace (line : Nat) (tail : List Char) :
          items line (lexemes (' ' :: tail)) = items line (lexemes tail) := by
        rw [lexemes]
        rfl
      rw [List.map_cons, List.map_cons, List.intercalate_cons_cons, List.append_assoc]
      refine (ht.items (.cons (d := ' ') rfl) line).trans (congrArg (_ :: ·) ?_)
      exact (congrArg _ (hspace _ _)).trans (ih hrest _)

theorem beforeEnd_scanned (source : String) :
    beforeEnd (scannedTokens (scan source)) = tokens 1 (lexemes source.toList) := by
  rw [scan_eq, scannedTokens_items]
  exact beforeEnd_append rfl (tokens_ne_eof (lexemes_ne_eof source.toList) 1)

/-- The texts of the tokens of a source with spaces between them are scanned as the same tokens, up to
their lines, and without faults. So is the text of each one of them on its own. -/
theorem scan_rejoined (source : String) :
    let tokens := beforeEnd (scannedTokens (scan source))
    (scan (" ".intercalate (tokens.map Token.lexeme))).map withoutLine =
        ((tokens ++ [Token.mk .eof "" 0]).map Except.ok).map withoutLine ∧
      ∀ t ∈ tokens,
        (scan t.lexeme).map withoutLine = [.ok t, .ok (.mk .eof "" 0)].map withoutLine := by
  have hlasting := tokens_lasting 1 source.toList
  rw [beforeEnd_scanned]
  refine ⟨?_, fun t ht => ?_⟩
  · rw [scan_eq]
    exact items_spaced hlasting 1
  · have hone := @items_spaced [t] (by simpa using hlasting t ht) 1
    rw [scan_eq]
    simpa using hone

end ClassScript
