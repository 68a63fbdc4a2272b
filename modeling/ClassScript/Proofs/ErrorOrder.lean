import ClassScript.Proofs.ErrorPlaces

/-!
# The order of syntax errors

Recovery skips at least one token unless none is left, so the next error is further on, also where blocks
and classes hold the faulty statements and the braces that close them are skipped.
-/

set_option autoImplicit false

namespace ClassScript.Grammar

variable {final final' t : Token} {s r rest used : List Token} {α β : Type} {a b : Bool}

open SyntaxError (Names mark)

/-! ## Declarations of variables and headers -/

theorem typeName?_twins (s : List Token) :
    (typeName? final s).Twins final (typeName? final' s) := by
  cases s with
  | nil => exact .done none
  | cons t rest =>
    rw [typeName?, typeName?]
    split
    · exact .past ((expect_twins _ _ rest).map _)
    · exact .done none

theorem initializer?_twins (s : List Token) :
    (initializer? final s).Twins final (initializer? final' s) := by
  cases s with
  | nil => exact .done none
  | cons t rest =>
    rw [initializer?, initializer?]
    split
    · exact .past ((expression_twins rest).map _)
    · exact .done none

theorem varDeclaration_twins (s : List Token) :
    (varDeclaration final s).Twins final (varDeclaration final' s) :=
  (expectName_twins _ s).andThen fun _ r _ => (typeName?_twins r).andThen fun _ r _ =>
    (initializer?_twins r).andThen fun _ r _ => (expectSymbol_twins _ _ r).map _

theorem parameter_twins (s : List Token) :
    (parameter final s).Twins final (parameter final' s) :=
  (expectName_twins _ s).andThen fun _ r _ => (expectSymbol_twins _ _ r).andThen fun _ r _ =>
    (expect_twins _ _ r).map _

theorem parameterList_twins (count : Nat) (s : List Token) :
    (parameterList final count s).Twins final (parameterList final' count s) := by
  unfold parameterList
  split
  · exact .reject _
  · refine (parameter_twins s).andThen fun p r h => ?_
    cases r with
    | nil => exact .reject _
    | cons t rest =>
      dsimp only
      split
      · exact .past ((parameterList_twins (count + 1) rest).map _)
      split
      · exact .one _
      · exact .reject _
termination_by s.length
decreasing_by
  simp only [List.length_cons, Bool.toNat_true] at *
  omega

theorem parameters_twins (s : List Token) :
    (parameters final s).Twins final (parameters final' s) := by
  cases s with
  | nil => exact parameterList_twins 0 []
  | cons t rest =>
    rw [parameters, parameters]
    split
    · exact .one _
    · exact parameterList_twins 0 (t :: rest)

theorem header_twins (kind : RoutineKind) (s : List Token) :
    (header final kind s).Twins final (header final' kind s) :=
  (expectName_twins _ s).andThen fun _ r _ => (expectSymbol_twins _ _ r).andThen fun _ r _ =>
    (parameters_twins r).andThen fun _ r _ => (typeName?_twins r).andThen fun _ r _ =>
      (expectSymbol_twins _ _ r).map _

theorem superclass?_twins (s : List Token) :
    (superclass? final s).Twins final (superclass? final' s) := by
  cases s with
  | nil => exact .done none
  | cons t rest =>
    rw [superclass?, superclass?]
    split
    · exact .past ((expectName_twins _ rest).map _)
    · exact .done none

theorem classHeader_twins (s : List Token) :
    (classHeader final s).Twins final (classHeader final' s) :=
  (expectName_twins _ s).andThen fun _ r _ => (superclass?_twins r).andThen fun _ r _ =>
    (expectSymbol_twins _ _ r).map _

/-! ## Simple statements -/

theorem expressionStatement_twins (s : List Token) :
    (expressionStatement final s).Twins final (expressionStatement final' s) :=
  (expression_twins s).andThen fun _ r _ => (expectSymbol_twins _ _ r).map _

theorem printStatement_twins (s : List Token) :
    (printStatement final s).Twins final (printStatement final' s) :=
  (expression_twins s).andThen fun _ r _ => (expectSymbol_twins _ _ r).map _

theorem expressionUntil_twins (close : Symbol) (cause : SyntaxCause) (s : List Token) :
    (expressionUntil final close cause s).Twins final (expressionUntil final' close cause s) := by
  cases s with
  | nil => exact .reject _
  | cons t rest =>
    rw [expressionUntil, expressionUntil]
    split
    · exact .one _
    · exact (expression_twins _).andThen fun _ r _ => (expectSymbol_twins _ _ r).map _

theorem condition_twins (opening closing : SyntaxCause) (s : List Token) :
    (condition final opening closing s).Twins final (condition final' opening closing s) :=
  (expectSymbol_twins _ _ s).andThen fun _ r _ => (expression_twins r).andThen fun _ r _ =>
    (expectSymbol_twins _ _ r).map _

theorem forInitializer_twins (s : List Token) :
    (forInitializer final s).Twins final (forInitializer final' s) := by
  cases s with
  | nil => exact (expressionStatement_twins []).map _
  | cons t rest =>
    rw [forInitializer, forInitializer]
    split
    · exact .one _
    split
    · exact .past ((varDeclaration_twins rest).map _)
    · exact (expressionStatement_twins _).map _

theorem forClauses_twins (s : List Token) :
    (forClauses final s).Twins final (forClauses final' s) :=
  (expectSymbol_twins _ _ s).andThen fun _ r _ => (forInitializer_twins r).andThen fun _ r _ =>
    (expressionUntil_twins _ _ r).andThen fun _ r _ => (expressionUntil_twins _ _ r).map _

/-! ## Recovery -/

theorem resume_suffix (last : Token) (s : List Token) : ∃ used, s = used ++ resume last s := by
  induction s generalizing last with
  | nil => exact ⟨[], rfl⟩
  | cons t rest ih =>
    rw [resume]
    split
    · exact ⟨[], rfl⟩
    · obtain ⟨used, h⟩ := ih t
      exact ⟨t :: used, congrArg (t :: ·) h⟩

theorem synchronize_suffix (s : List Token) : ∃ used, s = used ++ synchronize s := by
  cases s with
  | nil => exact ⟨[], rfl⟩
  | cons t rest =>
    obtain ⟨used, h⟩ := resume_suffix t rest
    exact ⟨t :: used, congrArg (t :: ·) h⟩

/-- Behind the error at which a rule stopped, recovery goes on. -/
theorem further_synchronize {n : Nat} (h : s.length ≤ n) : Further n (synchronize s).length := by
  have hle := length_synchronize_le s
  by_cases hn : n = 0
  · exact .inr ⟨hn, by omega⟩
  · exact .inl (by omega)

theorem recover_twins {x y : Reply true (Stmt Unit) (t :: rest)} (h : x.Twins final y) :
    (recover t rest x).reply.Twins final (recover t rest y).reply := by
  obtain ⟨log, o⟩ := x
  obtain ⟨log', o'⟩ := y
  obtain ⟨hmarks, hnames, hordered, hbefore, ho⟩ := h
  cases ho with
  | ok used h hs => exact ⟨hmarks, hnames, hordered, hbefore, .ok used _ hs⟩
  | @fail e e' r used h hs hle hname hmark =>
    obtain ⟨used', hr⟩ := synchronize_suffix r
    have hnext := further_synchronize hle
    refine ⟨?_, ?_, ?_, ?_, .ok (used ++ used') _ ?_⟩
    · show (log ++ [e]).map mark = (log' ++ [e']).map mark
      simp only [List.map_append, List.map_cons, List.map_nil, hmark]
      exact congrArg (· ++ _) hmarks
    · intro e₁ he
      obtain hlog | hlast := List.mem_append.1 he
      · exact hnames e₁ hlog
      · cases List.mem_singleton.1 hlast
        exact hname
    · refine List.pairwise_append.2 ⟨hordered, List.pairwise_singleton _ _, fun e₁ he e₂ hlast => ?_⟩
      cases List.mem_singleton.1 hlast
      exact hbefore e₁ he
    · intro e₁ he
      obtain hlog | hlast := List.mem_append.1 he
      · refine (hbefore e₁ hlog).mono ?_
        have := length_synchronize_le r
        show (synchronize r).length ≤ e.left
        omega
      · cases List.mem_singleton.1 hlast
        exact hnext
    · exact hs.trans ((congrArg (used ++ ·) hr).trans (List.append_assoc ..).symm)

/-! ## Statements and declarations -/

mutual

theorem statement_twins (s : List Token) :
    (statement final s).Twins final (statement final' s) := by
  match s with
  | [] =>
    unfold statement
    exact .quiet (expressionStatement_twins [])
  | t :: rest =>
    unfold statement
    split
    · exact .past ((Reply.Twins.quiet (forClauses_twins rest)).andThen fun clauses r _ =>
        (statement_twins r).map _)
    · exact .past ((Reply.Twins.quiet (condition_twins _ _ rest)).andThen fun c r _ =>
        (statement_twins r).andThen fun thenBranch r _ => elseBranch_twins c thenBranch r)
    · exact .past ((Reply.Twins.quiet (condition_twins _ _ rest)).andThen fun c r _ =>
        (statement_twins r).map _)
    · exact .quiet (.past ((expressionUntil_twins _ _ rest).map _))
    · exact .past ((body_twins rest).map _)
    · exact .quiet (.past (printStatement_twins rest))
    · exact .quiet (expressionStatement_twins _)
termination_by 8 * s.length + 1

theorem elseBranch_twins (c : Expr Unit) (thenBranch : Stmt Unit) (s : List Token) :
    (elseBranch final c thenBranch s).Twins final (elseBranch final' c thenBranch s) := by
  match s with
  | [] =>
    unfold elseBranch
    exact .quiet (.done _)
  | t :: rest =>
    unfold elseBranch
    split
    · exact .past ((statement_twins rest).map _)
    · exact .quiet (.done _)
termination_by 8 * s.length

theorem body_twins (s : List Token) : (body final s).Twins final (body final' s) := by
  match s with
  | [] =>
    unfold body
    exact .quiet (.reject _)
  | t :: rest =>
    by_cases ht : t.isSymbol .rightBrace = true
    · unfold body
      rw [if_pos ht, if_pos ht]
      exact .quiet (.one _)
    · rw [Parser.body_cons ht, Parser.body_cons ht]
      exact (declaration_twins t rest).andThen fun first r _ => (body_twins r).map _
termination_by 8 * s.length + 3
decreasing_by
  all_goals
    simp only [List.length_cons, Bool.toNat_true] at *
    omega

theorem declaration_twins (t : Token) (s : List Token) :
    (declaration final t s).reply.Twins final (declaration final' t s).reply := by
  unfold declaration
  split
  · exact recover_twins (.past (classDeclaration_twins s))
  · exact recover_twins (.past ((routine_twins .function s).map _))
  · exact recover_twins (.quiet (.past ((varDeclaration_twins s).map _)))
  · exact recover_twins (statement_twins (t :: s))
termination_by 8 * s.length + 10

theorem routine_twins (kind : RoutineKind) (s : List Token) :
    (routine final kind s).Twins final (routine final' kind s) := by
  unfold routine
  exact (Reply.Twins.quiet (header_twins kind s)).andThen fun found r _ => (body_twins r).map _
termination_by 8 * s.length
decreasing_by
  simp only [Bool.toNat_true] at *
  omega

theorem classDeclaration_twins (s : List Token) :
    (classDeclaration final s).Twins final (classDeclaration final' s) := by
  unfold classDeclaration
  exact (Reply.Twins.quiet (classHeader_twins s)).andThen fun found r _ => (members_twins r).map _
termination_by 8 * s.length
decreasing_by
  simp only [Bool.toNat_true] at *
  omega

theorem members_twins (s : List Token) :
    (members final s).Twins final (members final' s) := by
  match s with
  | [] =>
    unfold members
    exact .quiet (.reject _)
  | t :: rest =>
    unfold members
    split
    · exact .quiet (.one _)
    split
    · exact .past ((Reply.Twins.quiet (varDeclaration_twins rest)).andThen fun f r _ =>
        (members_twins r).map _)
    · exact (routine_twins .method (t :: rest)).andThen fun m r _ => (members_twins r).map _
termination_by 8 * s.length + 1
decreasing_by
  all_goals
    simp only [List.length_cons, Bool.toNat_true] at *
    omega

end

/-! ## Programs -/

theorem programReply_twins (final final' : Token) (s : List Token) :
    (Parser.programReply final s).Twins final (Parser.programReply final' s) := by
  match s with
  | [] =>
    unfold Parser.programReply program
    exact .quiet (.done [])
  | t :: rest =>
    rw [Parser.programReply_cons, Parser.programReply_cons]
    exact ((declaration_twins t rest).andThen fun first r _ => (programReply_twins final final' r).map _).lax
termination_by s.length
decreasing_by
  simp only [List.length_cons, Bool.toNat_true] at *
  omega

/-- With one token or another for the end of the source, the grammar finds the same statements and errors
of the same causes at the same places. -/
theorem program_marks (final final' : Token) (s : List Token) :
    (program final s).1.map mark = (program final' s).1.map mark ∧
      (program final s).2 = (program final' s).2 := by
  have h := programReply_twins final final' s
  refine ⟨h.marks, ?_⟩
  exact h.outcome.value_eq

/-- Every error names the token at its place, and each error is further on than the ones before. -/
theorem program_errors (final : Token) (s : List Token) :
    (∀ e ∈ (program final s).1, e.Names final s) ∧
      (program final s).1.Pairwise fun e e' => Further e.left e'.left :=
  have h := programReply_twins final final s
  ⟨h.names, h.ordered⟩

end ClassScript.Grammar
