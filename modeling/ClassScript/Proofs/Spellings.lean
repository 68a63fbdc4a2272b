import ClassScript.Proofs.ScannedPieces

/-!
# Spellings

The tokens of a source are spelled after their kinds (`scannedTokens_spells`): a symbol has one text, and a
name is a word that is not reserved.
-/

set_option autoImplicit false

namespace ClassScript

/-! ## Kinds -/

namespace Symbol

/-- The text of a symbol. -/
def spelling : Symbol → String
  | leftParen => "("
  | rightParen => ")"
  | leftBrace => "\x7b"
  | rightBrace => "\x7d"
  | comma => ","
  | dot => "."
  | colon => ":"
  | minus => "-"
  | minusMinus => "--"
  | plus => "+"
  | plusPlus => "++"
  | semicolon => ";"
  | slash => "/"
  | star => "*"
  | bang => "!"
  | bangEqual => "!="
  | equal => "="
  | equalEqual => "=="
  | greater => ">"
  | greaterEqual => ">="
  | less => "<"
  | lessEqual => "<="
  | andWord => "and"
  | classWord => "class"
  | elseWord => "else"
  | falseWord => "false"
  | funWord => "fun"
  | forWord => "for"
  | ifWord => "if"
  | nilWord => "nil"
  | orWord => "or"
  | printWord => "print"
  | returnWord => "return"
  | superWord => "super"
  | thisWord => "this"
  | trueWord => "true"
  | varWord => "var"
  | whileWord => "while"
  | numberWord => "number"
  | stringWord => "string"
  | booleanWord => "boolean"
  | voidWord => "void"

theorem mem_of_ofWord? {w : String} {s : Symbol} (h : ofWord? w = some s) : (w, s) ∈ words := by
  obtain ⟨l, r, hw, -⟩ := List.lookup_eq_some_iff.1 h
  rw [hw]
  exact List.mem_append_right l (List.mem_cons_self ..)

theorem spelling_of_ofWord? {w : String} {s : Symbol} (h : ofWord? w = some s) : w = s.spelling := by
  have key : ∀ p ∈ words, p.1 = p.2.spelling := by decide
  exact key _ (mem_of_ofWord? h)

theorem spelling_of_ofChar? {c : Char} {s : Symbol} (h : ofChar? c = some s) :
    [c] = s.spelling.toList := by
  unfold ofChar? at h
  split at h <;> cases h <;> rfl

theorem spelling_of_ofPair? {c d : Char} {s : Symbol} (h : ofPair? c d = some s) :
    [c, d] = s.spelling.toList := by
  unfold ofPair? at h
  split at h <;> cases h <;> rfl

end Symbol

/-- The text is a word. -/
def IsWord (text : List Char) : Prop :=
  ∃ c rest, text = c :: rest ∧ Lexer.isWordStart c = true ∧ ∀ d ∈ rest, Lexer.isWordPart d = true

/-- A token of this kind can have this text. -/
def TokenKind.Spells (text : List Char) : TokenKind → Prop
  | .symbol s => text = s.spelling.toList
  | .identifier => IsWord text ∧ Symbol.ofWord? (String.ofList text) = none
  | _ => True

namespace Lexer

/-! ## Pieces -/

/-- If the piece is a token, it has a text of its kind. -/
def Lexeme.Spells (l : Lexeme) : Prop :=
  ∀ kind, l.item = .token kind → kind.Spells l.text

theorem spells_of_not_token {l : Lexeme} (h : ∀ kind, l.item ≠ .token kind) : l.Spells :=
  fun kind hk => absurd hk (h kind)

theorem spells_token {kind : TokenKind} {text : List Char} (h : kind.Spells text) :
    Lexeme.Spells ⟨.token kind, text⟩ := by
  intro k hk
  cases hk
  exact h

theorem stringAt_spells (c : Char) (rest : List Char) : (stringAt c rest).1.Spells := by
  unfold stringAt
  split
  · exact spells_of_not_token fun _ h => by cases h
  · exact spells_token trivial

theorem numberAt_spells (c : Char) (rest : List Char) : (numberAt c rest).1.Spells := by
  unfold numberAt
  dsimp only
  split
  · split <;> exact spells_token trivial
  · exact spells_token trivial

theorem wordAt_spells (c : Char) (rest : List Char) (hc : isWordStart c = true) :
    (wordAt c rest).1.Spells := by
  refine spells_token ?_
  unfold wordKind
  split
  next s hs => exact String.toList_ofList.symm.trans (congrArg _ (Symbol.spelling_of_ofWord? hs))
  next hs => exact ⟨⟨c, _, rfl, hc, List.all_eq_true.1 List.all_takeWhile⟩, hs⟩

theorem charAt_spells (c : Char) (rest : List Char) : (charAt c rest).1.Spells := by
  unfold charAt
  split
  next s hs => exact spells_token (Symbol.spelling_of_ofChar? hs)
  · exact spells_of_not_token nofun

theorem symbolAt_spells (c : Char) (rest : List Char) : (symbolAt c rest).1.Spells := by
  unfold symbolAt
  split
  · exact charAt_spells c []
  · split
    next s hs => exact spells_token (Symbol.spelling_of_ofPair? hs)
    · exact charAt_spells c _

theorem first_spells (c : Char) (rest : List Char) : (first c rest).1.Spells := by
  unfold first
  split
  · exact spells_of_not_token nofun
  split
  · exact spells_of_not_token nofun
  split
  · exact stringAt_spells c rest
  split
  · exact numberAt_spells c rest
  split
  next hc => exact wordAt_spells c rest hc
  · exact symbolAt_spells c rest

theorem lexemes_spell (s : List Char) : ∀ l ∈ lexemes s, l.Spells := by
  induction s using lexemes.induct with
  | case1 => simp [lexemes]
  | case2 c rest ih =>
    rw [lexemes]
    exact List.forall_mem_cons.2 ⟨first_spells c rest, ih⟩

/-! ## Tokens -/

theorem items_spell (line : Nat) (ls : List Lexeme) (h : ∀ l ∈ ls, l.Spells) :
    ∀ t ∈ scannedTokens (items line ls), t.kind.Spells t.lexeme.toList := by
  induction ls generalizing line with
  | nil =>
    rintro t (_ | ⟨_, ⟨⟩⟩)
    trivial
  | cons l rest ih =>
    obtain ⟨hl, hrest⟩ := List.forall_mem_cons.1 h
    have hmore := ih (line + newlines l.text) hrest
    unfold items
    dsimp only
    split
    · exact hmore
    · exact hmore
    next kind hkind =>
      refine List.forall_mem_cons.2 ⟨?_, hmore⟩
      rw [String.toList_ofList]
      exact hl kind hkind
    · exact hmore

end Lexer

/-- The tokens of a source are spelled after their kinds. -/
theorem scannedTokens_spells (source : String) :
    ∀ t ∈ scannedTokens (scan source), t.kind.Spells t.lexeme.toList :=
  scan_eq source ▸ Lexer.items_spell 1 _ (Lexer.lexemes_spell _)

end ClassScript
