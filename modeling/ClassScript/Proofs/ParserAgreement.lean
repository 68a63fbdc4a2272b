import ClassScript.Proofs.ParserCompleteness
import ClassScript.Proofs.ProgramDescent

/-!
# The parser reads the grammar

Statements and declarations are read as they are derived: a dangling statement if no `else` stands
behind it, any other in front of all tokens. A declaration starts neither with `else` nor with a
closing brace, so what follows another declaration in a block or in a program does not continue it.
The parser and the grammar agree on all lists of tokens that end in their only end of the source
(`parseTokens_iff_program`).
-/

set_option autoImplicit false

namespace ClassScript

open Derives Outcome

namespace Grammar

variable {final t : Token} {ts us s r : List Token} {st : Stmt Unit}

/-! ## First tokens of statements -/

/-- The token starts a statement. -/
def startsStatement (t : Token) : Bool :=
  startsExpression t || [Symbol.printWord, .returnWord, .leftBrace, .ifWord, .whileWord,
    .forWord].any t.isSymbol

/-- The token starts a declaration. -/
def startsDeclaration (t : Token) : Bool :=
  startsStatement t || [Symbol.classWord, .funWord, .varWord].any t.isSymbol

theorem startsDeclaration_symbol {symbol : Symbol} (ht : t.kind = .symbol symbol) :
    startsDeclaration t = startsDeclaration ⟨.symbol symbol, "", 0⟩ := by
  simp only [startsDeclaration, startsStatement, startsExpression_symbol ht, isSymbol_congr ht]

theorem startsStatement_symbol {symbol : Symbol} (ht : t.kind = .symbol symbol) :
    startsStatement t = startsStatement ⟨.symbol symbol, "", 0⟩ := by
  simp only [startsStatement, startsExpression_symbol ht, isSymbol_congr ht]

theorem not_starts_statement {symbol : Symbol} (ht : startsStatement t = true)
    (hs : startsStatement ⟨.symbol symbol, "", 0⟩ = false) : t.kind ≠ .symbol symbol := by
  intro hk
  rw [startsStatement_symbol hk, hs] at ht
  cases ht

theorem not_starts_declaration {symbol : Symbol} (ht : startsDeclaration t = true)
    (hs : startsDeclaration ⟨.symbol symbol, "", 0⟩ = false) : t.kind ≠ .symbol symbol := by
  intro hk
  rw [startsDeclaration_symbol hk, hs] at ht
  cases ht

theorem statement_starts {dangling : Bool} (h : Statement dangling ts st) :
    Starts startsStatement ts := by
  have hword {symbol : Symbol} {keyword : Token} {us : List Token}
      (hk : keyword.kind = .symbol symbol)
      (hs : startsStatement ⟨.symbol symbol, "", 0⟩ = true) :
      Starts startsStatement (keyword :: us) :=
    ⟨keyword, us, rfl, by rw [startsStatement_symbol hk, hs]⟩
  cases h with
  | expression he _ =>
    exact ((expression_starts he).mono fun t ht => by
      rw [startsStatement, ht, Bool.true_or]).append _
  | print hk _ _ => exact hword hk rfl
  | returnWith hk _ _ => exact hword hk rfl
  | block hk _ => exact hword hk rfl
  | ifThen hk _ _ => exact hword hk rfl
  | ifElse hk _ _ _ _ => exact hword hk rfl
  | whileLoop hk _ _ => exact hword hk rfl
  | forLoop hk _ _ => exact hword hk rfl

theorem declaration_starts (h : Declaration ts st) : Starts startsDeclaration ts := by
  have hword {symbol : Symbol} {keyword : Token} {us : List Token}
      (hk : keyword.kind = .symbol symbol)
      (hs : startsDeclaration ⟨.symbol symbol, "", 0⟩ = true) :
      Starts startsDeclaration (keyword :: us) :=
    ⟨keyword, us, rfl, by rw [startsDeclaration_symbol hk, hs]⟩
  cases h with
  | classDecl hk _ _ _ _ => exact hword hk rfl
  | function hk _ => exact hword hk rfl
  | var hk _ => exact hword hk rfl
  | statement h =>
    exact (statement_starts h).mono fun t ht => by rw [startsDeclaration, ht, Bool.true_or]

theorem routine_starts {d : FunctionDecl (Stmt Unit)} (h : Routine ts d) :
    Starts (·.kind = .identifier) ts := by
  cases h with
  | mk hh _ _ =>
    cases hh with
    | mk hn _ _ _ _ _ => exact ⟨_, _, rfl, decide_eq_true hn⟩

/-! ## Tokens behind a declaration -/

/-- No `else` stands first. -/
abbrev NoElse (r : List Token) : Prop :=
  MayFollow true r

theorem NoElse.mayFollow (h : NoElse r) (dangling : Bool) : MayFollow dangling r :=
  fun _ => h rfl

theorem Starts.noElse (h : Starts startsDeclaration r) : NoElse r := by
  obtain ⟨t, rest, rfl, ht⟩ := h
  rintro - _ _ ⟨⟩
  exact not_starts_declaration ht rfl

theorem noElse_nil : NoElse [] :=
  fun _ _ _ h => nomatch h

theorem body_noElse {ss : List (Stmt Unit)} (h : Body ts ss) (r : List Token) :
    NoElse (ts ++ r) := by
  cases h with
  | nil hc =>
    rintro - _ _ ⟨⟩ hk
    rw [hc] at hk
    cases hk
  | cons hd _ => exact (((declaration_starts hd).append _).append r).noElse

theorem program_noElse {ss : List (Stmt Unit)} (h : Program ts ss) : NoElse ts := by
  cases h with
  | nil => exact noElse_nil
  | cons hd _ => exact ((declaration_starts hd).append _).noElse

/-! ## Statements and declarations -/

/-- Reading goes on after a value that was read without errors. -/
theorem reply_reads_then {α β : Type} {a b : Bool} {x : Reply a α s}
    {next : α → (r : List Token) → r.length + a.toNat ≤ s.length → Reply b β r} {v : α} {u : β}
    {r' : List Token} (hx : x.Reads v r) (hn : ∀ h, (next v r h).Reads u r') :
    (x.andThen next).Reads u r' := by
  obtain ⟨h, he⟩ := hx.2
  exact Reply.reads_andThen.2 ⟨v, r, h, hx, hn h⟩

theorem elseBranch_stops {c : Expr Unit} (h : NoElse r) :
    (elseBranch final c st r).Reads (.ifThen c st) r := by
  cases r with
  | nil =>
    unfold elseBranch
    exact Reply.reads_quiet.2 (reads_done.2 ⟨rfl, rfl⟩)
  | cons t rest =>
    unfold elseBranch
    rw [if_neg fun ht => h rfl t rest rfl (Token.isSymbol_iff.1 ht)]
    exact Reply.reads_quiet.2 (reads_done.2 ⟨rfl, rfl⟩)

/-- The first branch of an `if` and what stands behind it. -/
theorem ifStatement_reads {keyword : Token} {c : Expr Unit} {thenBranch : Stmt Unit}
    (hk : keyword.kind = .symbol .ifWord) (hc : Condition ts c)
    (ht : (statement final s).Reads thenBranch us) (he : (elseBranch final c thenBranch us).Reads st r) :
    (statement final (keyword :: (ts ++ s))).Reads st r := by
  unfold statement
  simp only [hk]
  refine Reply.reads_past.2 (reply_reads_then (Reply.reads_quiet.2 (condition_reads hc s)) fun _ => ?_)
  exact reply_reads_then ht fun _ => he

mutual

theorem statement_reads {dangling : Bool} {ts : List Token} {st : Stmt Unit} :
    Statement dangling ts st → ∀ r, MayFollow dangling r → (statement final (ts ++ r)).Reads st r
  | @Statement.expression ts semicolon e he hs, r, _ => by
    rw [List.append_assoc, List.singleton_append]
    have hexpression : (expressionStatement final (ts ++ semicolon :: r)).Reads _ r :=
      expressionStatement_reads he hs r
    obtain ⟨t, rest, ht, hstart⟩ := (expression_starts he).append (semicolon :: r)
    rw [ht] at hexpression ⊢
    unfold statement
    split
    next hk => exact absurd hk (not_starts hstart rfl)
    next hk => exact absurd hk (not_starts hstart rfl)
    next hk => exact absurd hk (not_starts hstart rfl)
    next hk => exact absurd hk (not_starts hstart rfl)
    next hk => exact absurd hk (not_starts hstart rfl)
    next hk => exact absurd hk (not_starts hstart rfl)
    next => exact Reply.reads_quiet.2 hexpression
  | .print hk he hs, r, _ => by
    rw [List.cons_append, List.append_assoc, List.singleton_append]
    unfold statement
    simp only [hk]
    exact Reply.reads_quiet.2 (reads_past.2 (printStatement_reads he hs r))
  | .returnWith hk he hs, r, _ => by
    rw [List.cons_append, List.append_assoc, List.singleton_append]
    unfold statement
    simp only [hk]
    refine Reply.reads_quiet.2 (reads_past.2 (reads_map.2 ⟨_, ?_, rfl⟩))
    exact expressionUntil_reads he hs rfl (by decide) r
  | .block hk hb, r, _ => by
    rw [List.cons_append]
    unfold statement
    simp only [hk]
    exact Reply.reads_past.2 (Reply.reads_map.2 ⟨_, body_reads_derived hb r, rfl⟩)
  | .ifThen hk hc ht, r, hr => by
    rw [List.cons_append, List.append_assoc]
    exact ifStatement_reads hk hc (statement_reads ht r (NoElse.mayFollow hr _))
      (elseBranch_stops hr)
  | .ifElse hk hc ht ho he, r, hr => by
    rw [List.cons_append, List.append_assoc, List.append_assoc, List.cons_append]
    refine ifStatement_reads hk hc (statement_reads ht _ (mayFollow_false _)) ?_
    unfold elseBranch
    rw [if_pos (Token.isSymbol_iff.2 ho)]
    exact Reply.reads_past.2 (Reply.reads_map.2 ⟨_, statement_reads he r hr, rfl⟩)
  | .whileLoop hk hc hb, r, hr => by
    rw [List.cons_append, List.append_assoc]
    unfold statement
    simp only [hk]
    refine Reply.reads_past.2 (reply_reads_then (Reply.reads_quiet.2 (condition_reads hc _)) fun _ => ?_)
    exact Reply.reads_map.2 ⟨_, statement_reads hb r hr, rfl⟩
  | .forLoop hk hc hb, r, hr => by
    rw [List.cons_append, List.append_assoc]
    unfold statement
    simp only [hk]
    refine Reply.reads_past.2 (reply_reads_then (Reply.reads_quiet.2 (clauses_reads hc _)) fun _ => ?_)
    exact Reply.reads_map.2 ⟨_, statement_reads hb r hr, rfl⟩
termination_by structural h => h

theorem body_reads_derived {ts : List Token} {ss : List (Stmt Unit)} :
    Body ts ss → ∀ r, (body final (ts ++ r)).Reads ss r
  | .nil hc, r => by
    rw [List.singleton_append]
    exact body_reads.2 (.inl ⟨hc, rfl, rfl⟩)
  | @Body.cons ts us _ _ hd hb, r => by
    rw [List.append_assoc]
    obtain ⟨t, rest, ht, hstart⟩ := (declaration_starts hd).append (us ++ r)
    have hread := declaration_reads hd _ (body_noElse hb r) t rest ht
    rw [ht]
    exact body_reads.2 (.inr ⟨not_starts_declaration hstart rfl, _, _, _, hread,
      body_reads_derived hb r, rfl⟩)
termination_by structural h => h

theorem declaration_reads {ts : List Token} {st : Stmt Unit} :
    Declaration ts st → ∀ r, NoElse r → ∀ t rest, ts ++ r = t :: rest →
      (declaration final t rest).Reads st r
  | .classDecl hk hn hs ho hm, r, _, t, rest, he => by
    rw [List.cons_append, List.cons_append, List.append_assoc, List.cons_append] at he
    obtain ⟨rfl, rfl⟩ := List.cons.inj he
    unfold declaration
    simp only [hk]
    refine recover_reads.2 (Reply.reads_past.2 ?_)
    unfold classDeclaration
    refine reply_reads_then (Reply.reads_quiet.2 (classHeader_reads hn hs ho _)) fun _ => ?_
    exact Reply.reads_map.2 ⟨(_, _), members_reads hm r, rfl⟩
  | .function hk hd, r, _, t, rest, he => by
    obtain ⟨rfl, rfl⟩ := List.cons.inj he
    unfold declaration
    simp only [hk]
    exact recover_reads.2 (Reply.reads_past.2 (Reply.reads_map.2 ⟨_, routine_reads hd _ r, rfl⟩))
  | .var hk hd, r, _, t, rest, he => by
    obtain ⟨rfl, rfl⟩ := List.cons.inj he
    unfold declaration
    simp only [hk]
    exact recover_reads.2 (Reply.reads_quiet.2 (reads_past.2 (reads_map.2 ⟨_, variable_reads hd r, rfl⟩)))
  | .statement hst, r, hr, t, rest, he => by
    have hread : (statement final _).Reads st r := statement_reads hst r (hr.mayFollow _)
    obtain ⟨_, _, hs, hstart⟩ := (statement_starts hst).append r
    rw [he] at hread hs
    obtain ⟨rfl, rfl⟩ := List.cons.inj hs
    unfold declaration
    split
    next hk => exact absurd hk (not_starts_statement hstart rfl)
    next hk => exact absurd hk (not_starts_statement hstart rfl)
    next hk => exact absurd hk (not_starts_statement hstart rfl)
    next => exact recover_reads.2 hread
termination_by structural h => h

theorem routine_reads {ts : List Token} {d : FunctionDecl (Stmt Unit)} :
    Routine ts d → ∀ kind r, (routine final kind (ts ++ r)).Reads d r
  | .mk hh ho hb, kind, r => by
    rw [List.append_assoc, List.cons_append]
    unfold routine
    refine reply_reads_then (Reply.reads_quiet.2 (header_reads hh ho kind _)) fun _ => ?_
    exact Reply.reads_map.2 ⟨_, body_reads_derived hb r, rfl⟩
termination_by structural h => h

theorem members_reads {ts : List Token} {fields : List (VarDecl Unit)}
    {methods : List (FunctionDecl (Stmt Unit))} :
    MembersOf ts fields methods → ∀ r, (members final (ts ++ r)).Reads (fields, methods) r
  | .nil hc, r => by
    rw [List.singleton_append]
    unfold members
    rw [if_pos (Token.isSymbol_iff.2 hc)]
    exact Reply.reads_quiet.2 (reads_one.2 ⟨rfl, rfl⟩)
  | .field hk hd hm, r => by
    rw [List.cons_append, List.append_assoc]
    unfold members
    rw [if_neg (by simp [Token.isSymbol, hk]), if_pos (Token.isSymbol_iff.2 hk)]
    refine Reply.reads_past.2 (reply_reads_then (Reply.reads_quiet.2 (variable_reads hd _)) fun _ => ?_)
    exact Reply.reads_map.2 ⟨(_, _), members_reads hm r, rfl⟩
  | @MembersOf.method ts us _ _ _ hd hm, r => by
    rw [List.append_assoc]
    have hread : (routine final .method _).Reads _ (us ++ r) := routine_reads hd .method (us ++ r)
    obtain ⟨t, rest, ht, hstart⟩ := (routine_starts hd).append (us ++ r)
    rw [ht] at hread ⊢
    have hname : t.kind = .identifier := of_decide_eq_true hstart
    unfold members
    rw [if_neg (by simp [Token.isSymbol, hname]), if_neg (by simp [Token.isSymbol, hname])]
    refine reply_reads_then hread fun _ => ?_
    exact Reply.reads_map.2 ⟨(_, _), members_reads hm r, rfl⟩
termination_by structural h => h

end

/-- A derived program is read without errors. -/
theorem program_reads {ss : List (Stmt Unit)} (h : Program ts ss) :
    program final ts = ([], ss) := by
  induction h with
  | nil => rw [program]
  | @cons ts us _ _ hd hp ih =>
    obtain ⟨t, rest, ht, -⟩ := (declaration_starts hd).append us
    have hread : (declaration final t rest).Reads _ us :=
      declaration_reads hd us (program_noElse hp) t rest ht
    rw [ht]
    exact program_eq_nil.2 ⟨_, _, _, hread, ih, rfl⟩

theorem program_iff {ss : List (Stmt Unit)} : program final ts = ([], ss) ↔ Program ts ss :=
  ⟨program_derives ts, program_reads⟩

end Grammar

/-! ## The parser -/

variable {tokens : List Token} {final : Token}

theorem finalToken?_append (hfinal : final.kind = .eof) (hbefore : ∀ t ∈ tokens, t.kind ≠ .eof) :
    finalToken? (tokens ++ [final]) = some final := by
  have hnone : tokens.find? (fun t => t.kind = .eof) = none :=
    List.find?_eq_none.2 fun t ht => by simpa using hbefore t ht
  rw [finalToken?, List.find?_append, hnone]
  simp [hfinal]

theorem beforeEnd_append (hfinal : final.kind = .eof) (hbefore : ∀ t ∈ tokens, t.kind ≠ .eof) :
    beforeEnd (tokens ++ [final]) = tokens := by
  rw [beforeEnd, List.takeWhile_append_of_pos (by simpa using hbefore)]
  simp [hfinal]

/-- The parser on lists reads the tokens before their only end if and only if the grammar derives
them. -/
theorem Grammar.read_ok_iff (hfinal : final.kind = .eof) (hbefore : ∀ t ∈ tokens, t.kind ≠ .eof)
    (ss : List (Stmt Unit)) :
    Grammar.read (tokens ++ [final]) = .ok ss ↔ Derives.Program tokens ss := by
  rw [Grammar.read, finalToken?_append hfinal hbefore]
  dsimp only
  rw [beforeEnd_append hfinal hbefore, ← @Grammar.program_iff final]
  rcases Grammar.program final tokens with ⟨_ | ⟨e, es⟩, ss'⟩ <;> simp

/-- Tokens that end in their only end of the source are accepted if and only if the grammar derives
them, and then the statements are the tree of the derivation. -/
theorem parseTokens_iff_program (hfinal : final.kind = .eof)
    (hbefore : ∀ t ∈ tokens, t.kind ≠ .eof) (ss : List (Stmt Unit)) :
    parseTokens (tokens ++ [final]) = .ok ss ↔ Derives.Program tokens ss := by
  rw [parseTokens_eq_read]
  exact Grammar.read_ok_iff hfinal hbefore ss

/-- A name is an expression. -/
theorem Derives.expression_name {t : Token} (h : t.kind = .identifier) :
    Derives.Expression [t] (.variable () t.toName) :=
  .operators <| .operand <| .or <| .operand <| .and <| .operand <| .equality <| .operand <|
    .comparison <| .operand <| .term <| .operand <| .factor <| .call <| .primary <|
    .atom (.variable h)

/-- `if (a) if (b) c; else d;` -/
def nestedIf : List Token :=
  [⟨.symbol .ifWord, "if", 1⟩, ⟨.symbol .leftParen, "(", 1⟩, ⟨.identifier, "a", 1⟩,
    ⟨.symbol .rightParen, ")", 1⟩, ⟨.symbol .ifWord, "if", 1⟩, ⟨.symbol .leftParen, "(", 1⟩,
    ⟨.identifier, "b", 1⟩, ⟨.symbol .rightParen, ")", 1⟩, ⟨.identifier, "c", 1⟩,
    ⟨.symbol .semicolon, ";", 1⟩, ⟨.symbol .elseWord, "else", 1⟩, ⟨.identifier, "d", 1⟩,
    ⟨.symbol .semicolon, ";", 1⟩]

/-- The `else` belongs to the inner `if`. -/
theorem parseTokens_nestedIf :
    parseTokens (nestedIf ++ [⟨.eof, "", 1⟩]) =
      .ok [.ifThen (.variable () ⟨"a", 1⟩) (.ifElse (.variable () ⟨"b", 1⟩)
        (.expression (.variable () ⟨"c", 1⟩)) (.expression (.variable () ⟨"d", 1⟩)))] := by
  refine (parseTokens_iff_program rfl (by decide) _).2 ?_
  have hcondition (name : String) :
      Derives.Condition [⟨.symbol .leftParen, "(", 1⟩, ⟨.identifier, name, 1⟩,
        ⟨.symbol .rightParen, ")", 1⟩] (.variable () ⟨name, 1⟩) :=
    .mk rfl (Derives.expression_name rfl) rfl
  have hname (name : String) :
      Derives.Statement false [⟨.identifier, name, 1⟩, ⟨.symbol .semicolon, ";", 1⟩]
        (.expression (.variable () ⟨name, 1⟩)) :=
    .expression (Derives.expression_name rfl) rfl
  have hinner : Derives.Statement false (nestedIf.drop 4) _ :=
    .ifElse rfl (hcondition "b") (hname "c") rfl (hname "d")
  exact .cons (.statement (.ifThen rfl (hcondition "a") hinner)) .nil

end ClassScript
