import ClassScript.Proofs.ParserAgreement
import ClassScript.Proofs.ScannedPieces
import ClassScript.Proofs.ShiftedDerivations
import ClassScript.Session

/-!
# Two sources with a newline between them

Every piece of a source ends before a newline that follows the source, unless it is a string without its
last quote. So the pieces of two sources with a newline between them are the pieces of the first one, a
blank, and the pieces of the second one (`Lexer.lexemes_joined`), and the program is that of the first
source with that of the second one behind it, on later lines (`parse_joined`).
-/

set_option autoImplicit false

namespace ClassScript

namespace Lexer

/-! ## The seam -/

section

variable {p : Char → Bool} {c : Char} {rest : List Char} (t : List Char)

theorem takeWhile_joined (hp : p '\n' = false) (l : List Char) :
    (l ++ '\n' :: t).takeWhile p = l.takeWhile p := by
  induction l with
  | nil => rw [List.nil_append, List.takeWhile_cons_of_neg (by simp [hp]), List.takeWhile_nil]
  | cons d l ih =>
    rw [List.cons_append, List.takeWhile_cons, List.takeWhile_cons, ih]

theorem dropWhile_joined (hp : p '\n' = false) (l : List Char) :
    (l ++ '\n' :: t).dropWhile p = l.dropWhile p ++ '\n' :: t := by
  induction l with
  | nil => rw [List.nil_append, List.dropWhile_cons_of_neg (by simp [hp])]; rfl
  | cons d l ih =>
    rw [List.cons_append, List.dropWhile_cons, List.dropWhile_cons, ih]
    split <;> rfl

theorem takeWhile_append_of_stop {l : List Char} (hl : l.dropWhile p ≠ []) (s : List Char) :
    (l ++ s).takeWhile p = l.takeWhile p ∧ (l ++ s).dropWhile p = l.dropWhile p ++ s := by
  induction l with
  | nil => exact absurd rfl hl
  | cons d l ih =>
    rw [List.cons_append, List.takeWhile_cons, List.takeWhile_cons, List.dropWhile_cons,
      List.dropWhile_cons]
    rw [List.dropWhile_cons] at hl
    split
    next hd =>
      rw [if_pos hd] at hl
      exact ⟨congrArg (d :: ·) (ih hl).1, (ih hl).2⟩
    next => exact ⟨rfl, rfl⟩

/-- A piece and what follows it, in front of a newline and more text. -/
def followed (r : Lexeme × List Char) : Lexeme × List Char :=
  (r.1, r.2 ++ '\n' :: t)

theorem commentAt_joined : commentAt c (rest ++ '\n' :: t) = followed t (commentAt c rest) := by
  unfold commentAt followed
  rw [takeWhile_joined t (by decide), dropWhile_joined t (by decide)]

theorem stringAt_joined (h : (stringAt c rest).1.item ≠ .fault .unterminatedString) :
    stringAt c (rest ++ '\n' :: t) = followed t (stringAt c rest) := by
  unfold stringAt at h ⊢
  dsimp only at h ⊢
  cases hd : rest.dropWhile (· ≠ '"') with
  | nil => rw [hd] at h; exact absurd rfl h
  | cons quote after =>
    obtain ⟨htake, hdrop⟩ :=
      @takeWhile_append_of_stop (· ≠ '"') rest (by rw [hd]; simp only [ne_eq, reduceCtorEq, not_false_eq_true]) ('\n' :: t)
    rw [htake, hdrop, hd]
    rfl

theorem numberAt_fraction {d : Char} {more : List Char}
    (h : rest.dropWhile Char.isDigit = '.' :: d :: more) (hd : d.isDigit = true) :
    numberAt c rest =
      let whole := c :: rest.takeWhile Char.isDigit
      let fraction := d :: more.takeWhile Char.isDigit
      (⟨.token (.number (literalValue whole fraction)), whole ++ '.' :: fraction⟩,
        more.dropWhile Char.isDigit) := by
  unfold numberAt
  rw [h]
  exact if_pos hd

theorem numberAt_whole
    (h : ∀ d more, rest.dropWhile Char.isDigit = '.' :: d :: more → d.isDigit = false) :
    numberAt c rest =
      let whole := c :: rest.takeWhile Char.isDigit
      (⟨.token (.number (literalValue whole [])), whole⟩, rest.dropWhile Char.isDigit) := by
  unfold numberAt
  dsimp only
  split
  next d more hd => rw [if_neg (by simp [h d more hd]), hd]
  next => rfl

theorem numberAt_joined : numberAt c (rest ++ '\n' :: t) = followed t (numberAt c rest) := by
  have hdigit : Char.isDigit '\n' = false := by decide
  have hdrop := dropWhile_joined t hdigit rest
  by_cases h : ∃ d more, rest.dropWhile Char.isDigit = '.' :: d :: more ∧ d.isDigit = true
  · obtain ⟨d, more, hafter, hd⟩ := h
    rw [hafter, List.cons_append, List.cons_append] at hdrop
    rw [numberAt_fraction hafter hd, numberAt_fraction hdrop hd, takeWhile_joined t hdigit,
      takeWhile_joined t hdigit, dropWhile_joined t hdigit]
    rfl
  · have hwhole : ∀ d more, rest.dropWhile Char.isDigit = '.' :: d :: more → d.isDigit = false :=
      fun d more he => Bool.eq_false_iff.2 fun hd => h ⟨d, more, he, hd⟩
    rw [numberAt_whole hwhole, numberAt_whole, takeWhile_joined t hdigit, hdrop]
    · rfl
    · rw [hdrop]
      intro d more he
      generalize rest.dropWhile Char.isDigit = after at hwhole he
      rcases after with _ | ⟨point, _ | ⟨e, others⟩⟩
      · cases he
      · cases he
        exact hdigit
      · cases he
        exact hwhole d others rfl

theorem wordAt_joined : wordAt c (rest ++ '\n' :: t) = followed t (wordAt c rest) := by
  unfold wordAt followed
  rw [takeWhile_joined t (by decide), dropWhile_joined t (by decide)]

theorem charAt_joined : charAt c (rest ++ '\n' :: t) = followed t (charAt c rest) := by
  unfold charAt followed
  split <;> rfl

theorem ofPair?_newline : Symbol.ofPair? c '\n' = none := by
  unfold Symbol.ofPair?
  split <;> first | rfl | contradiction

theorem symbolAt_joined : symbolAt c (rest ++ '\n' :: t) = followed t (symbolAt c rest) := by
  cases rest with
  | nil =>
    unfold symbolAt
    dsimp only [List.nil_append]
    rw [ofPair?_newline]
    exact @charAt_joined c [] t
  | cons d after =>
    unfold symbolAt
    dsimp only [List.cons_append]
    split
    · rfl
    · exact @charAt_joined c (d :: after) t

/-- The first piece of a source is the same before a newline and more text. -/
theorem first_joined (h : (first c rest).1.item ≠ .fault .unterminatedString) :
    first c (rest ++ '\n' :: t) = followed t (first c rest) := by
  have hslash : (rest ++ '\n' :: t).head? = some '/' ↔ rest.head? = some '/' := by
    cases rest with
    | nil => simp
    | cons d after => rfl
  unfold first at h ⊢
  simp only [hslash]
  split
  · rfl
  next hblank =>
    rw [if_neg hblank] at h
    split
    · exact commentAt_joined t
    next hcomment =>
      rw [if_neg hcomment] at h
      split
      next hquote =>
        rw [if_pos hquote] at h
        exact stringAt_joined t h
      · split
        · exact numberAt_joined t
        · split
          · exact wordAt_joined t
          · exact symbolAt_joined t

/-- The pieces of two sources with a newline between them. -/
theorem lexemes_joined (s t : List Char)
    (h : ∀ l ∈ lexemes s, l.item ≠ .fault .unterminatedString) :
    lexemes (s ++ '\n' :: t) = lexemes s ++ ⟨.blank, ['\n']⟩ :: lexemes t := by
  induction s using lexemes.induct with
  | case1 =>
    rw [List.nil_append, lexemes, lexemes]
    rfl
  | case2 c rest ih =>
    rw [lexemes] at h
    have hfirst := first_joined t (h _ (List.mem_cons_self ..))
    rw [List.cons_append, lexemes, hfirst, lexemes, List.cons_append]
    exact congrArg _ (ih fun l hl => h l (List.mem_cons_of_mem _ hl))

end

/-! ## Tokens on their lines -/

/-- The tokens among pieces of which the first one starts on `line`. -/
def tokens (line : Nat) : List Lexeme → List Token
  | [] => []
  | l :: rest =>
    let last := line + newlines l.text
    match l.item with
    | .token kind => ⟨kind, String.ofList l.text, last⟩ :: tokens last rest
    | _ => tokens last rest

/-- The line on which pieces end of which the first one starts on `line`. -/
def lastLine (line : Nat) (ls : List Lexeme) : Nat :=
  ls.foldl (fun n l => n + newlines l.text) line

/-- No piece is faulty. -/
def Faultless (ls : List Lexeme) : Prop :=
  ∀ l ∈ ls, ∀ cause, l.item ≠ .fault cause

theorem scannedTokens_items (line : Nat) (ls : List Lexeme) :
    scannedTokens (items line ls) = tokens line ls ++ [⟨.eof, "", lastLine line ls⟩] := by
  induction ls generalizing line with
  | nil => rfl
  | cons l rest ih =>
    obtain ⟨item, text⟩ := l
    have hrest := ih (line + newlines text)
    cases item with
    | token kind => exact congrArg (_ :: ·) hrest
    | _ => exact hrest

theorem scanFaults_items (line : Nat) (ls : List Lexeme) :
    scanFaults (items line ls) = [] ↔ Faultless ls := by
  induction ls generalizing line with
  | nil => exact ⟨fun _ l hl => (List.not_mem_nil hl).elim, fun _ => rfl⟩
  | cons l rest ih =>
    obtain ⟨item, text⟩ := l
    have hrest := ih (line + newlines text)
    have hcons : Faultless (⟨item, text⟩ :: rest) ↔ (∀ cause, item ≠ .fault cause) ∧
      Faultless rest := List.forall_mem_cons
    rw [hcons, ← hrest]
    cases item with
    | fault cause => exact ⟨nofun, fun h => absurd rfl (h.1 cause)⟩
    | _ => exact ⟨fun h => ⟨nofun, h⟩, fun h => h.2⟩

theorem tokens_append (line : Nat) (ls ms : List Lexeme) :
    tokens line (ls ++ ms) = tokens line ls ++ tokens (lastLine line ls) ms := by
  induction ls generalizing line with
  | nil => rfl
  | cons l rest ih =>
    rw [List.cons_append, tokens, tokens,
      show lastLine line (l :: rest) = lastLine (line + newlines l.text) rest from rfl]
    split
    · exact congrArg (_ :: ·) (ih _)
    · exact ih _

/-- A line of the source, `k` lines later. -/
def later (k line : Nat) : Nat :=
  if line = 0 then 0 else line + k

theorem later_of_pos {k line : Nat} (h : 0 < line) : later k line = line + k :=
  if_neg (Nat.ne_of_gt h)

theorem tokens_later {line : Nat} (h : 0 < line) (k : Nat) (ls : List Lexeme) :
    tokens (line + k) ls = Token.onLines (later k) (tokens line ls) := by
  induction ls generalizing line with
  | nil => rfl
  | cons l rest ih =>
    have hlast : 0 < line + newlines l.text := Nat.lt_add_right _ h
    have hline : line + k + newlines l.text = line + newlines l.text + k := Nat.add_right_comm ..
    have hrest := ih hlast
    rw [tokens, tokens]
    rw [hline]
    split
    · rw [Token.onLines_cons, ← hrest, Token.onLine, later_of_pos hlast]
    · exact hrest

/-! ## Programs -/

theorem lexemes_ne_eof (s : List Char) : ∀ l ∈ lexemes s, l.item ≠ .token .eof := by
  induction s using lexemes.induct with
  | case1 =>
    rw [lexemes]
    exact fun l hl => (List.not_mem_nil hl).elim
  | case2 c rest ih =>
    rw [lexemes, List.forall_mem_cons]
    exact ⟨(first_cut c rest).ne_eof, ih⟩

theorem tokens_ne_eof {ls : List Lexeme} (h : ∀ l ∈ ls, l.item ≠ .token .eof) (line : Nat) :
    ∀ t ∈ tokens line ls, t.kind ≠ .eof := by
  induction ls generalizing line with
  | nil => exact fun t ht => (List.not_mem_nil ht).elim
  | cons l rest ih =>
    obtain ⟨hl, hrest⟩ := List.forall_mem_cons.1 h
    rw [tokens]
    split
    next kind hkind =>
      rw [List.forall_mem_cons]
      exact ⟨fun he => hl (hkind.trans (congrArg Item.token he)), ih hrest _⟩
    · exact ih hrest _

end Lexer

open Lexer

/-- A source spells a program if no piece of it is faulty and its tokens are derived. -/
theorem parse_ok_iff {source : String} {program : List (Stmt Unit)} :
    parse source = .ok program ↔ Faultless (lexemes source.toList) ∧
      Derives.Program (tokens 1 (lexemes source.toList)) program := by
  have hparse := @Grammar.read_ok_iff (tokens 1 (lexemes source.toList))
    ⟨.eof, "", lastLine 1 (lexemes source.toList)⟩ rfl
    (tokens_ne_eof (lexemes_ne_eof source.toList) 1) program
  rw [← scannedTokens_items, ← parseTokens_eq_read] at hparse
  rw [← hparse, ← scanFaults_items 1]
  unfold parse
  rw [scan_eq]
  dsimp only
  generalize scanFaults (items 1 (lexemes source.toList)) = faults
  cases parseTokens (scannedTokens (items 1 (lexemes source.toList))) <;> cases faults <;> simp

/-- A source behind another one, on a line of its own, spells the same program on later lines. -/
theorem parse_joined {first second : String} {program rest : List (Stmt Unit)}
    (h : parse first = .ok program) (hrest : parse second = .ok rest) :
    ∃ k, parse (first ++ "\n" ++ second) =
      .ok (program ++ Stmt.relabelAll ⟨later k, id⟩ rest) := by
  obtain ⟨hfaultless, hprogram⟩ := parse_ok_iff.1 h
  obtain ⟨hfaultless', hrest⟩ := parse_ok_iff.1 hrest
  refine ⟨lastLine 1 (lexemes first.toList), parse_ok_iff.2 ?_⟩
  have htext : (first ++ "\n" ++ second).toList = first.toList ++ '\n' :: second.toList := by
    simp [String.toList_append]
  rw [htext, lexemes_joined _ _ fun l hl => hfaultless l hl _]
  refine ⟨?_, ?_⟩
  · intro l hl
    rcases List.mem_append.1 hl with hl | hl
    · exact hfaultless l hl
    · rcases List.mem_cons.1 hl with rfl | hl
      · exact nofun
      · exact hfaultless' l hl
  · rw [tokens_append, tokens, show newlines ['\n'] = 1 from rfl, Nat.add_comm _ 1]
    dsimp only
    rw [tokens_later Nat.one_pos]
    exact hprogram.append (@Derives.Program.onLines ⟨later _, id⟩ _ _ hrest)

end ClassScript
