import ClassScript.Proofs.ProgramDescent
import ClassScript.Proofs.Shape
import ClassScript.Proofs.Spellings
import ClassScript.Session

/-!
# Every program that is read has the shape

The scanner spells reserved words as such and takes only free words for names
(`scannedTokens_spelled`). From such tokens every rule of the grammar gives values of the shape of
`Shape.lean` and leaves such tokens (`Outcome.Gives`), so a program that a source spells has the
shape (`parse_shaped`).
-/

set_option autoImplicit false

namespace ClassScript

/-! ## Tokens -/

/-- A reserved word is spelled as such and a name is no reserved word. -/
structure Token.Spelled (t : Token) : Prop where
  word : ∀ w s, Symbol.ofWord? w = some s → t.kind = .symbol s → t.lexeme = w
  name : t.kind = .identifier → Symbol.ofWord? t.lexeme = none

/-- All tokens are spelled. -/
def AllSpelled (s : List Token) : Prop :=
  ∀ t ∈ s, t.Spelled

theorem AllSpelled.cons {t : Token} {s : List Token} (ht : t.Spelled) (hs : AllSpelled s) :
    AllSpelled (t :: s) := by
  intro u hu
  rcases List.mem_cons.1 hu with rfl | h
  · exact ht
  · exact hs u h

theorem AllSpelled.head {t : Token} {s : List Token} (h : AllSpelled (t :: s)) : t.Spelled :=
  h t (List.mem_cons_self ..)

theorem AllSpelled.tail {t : Token} {s : List Token} (h : AllSpelled (t :: s)) : AllSpelled s :=
  fun u hu => h u (List.mem_cons_of_mem t hu)

theorem AllSpelled.nil : AllSpelled [] :=
  fun _ h => nomatch h

theorem Token.spelled_of_spells {t : Token} (h : t.kind.Spells t.lexeme.toList) : t.Spelled := by
  obtain ⟨kind, lexeme, line⟩ := t
  refine ⟨?_, ?_⟩
  · rintro w s hw ⟨⟩
    exact (String.toList_inj.1 h).trans (Symbol.spelling_of_ofWord? hw).symm
  · rintro ⟨⟩
    rw [← h.2, String.ofList_toList]

/-- The tokens of a source are spelled. -/
theorem scannedTokens_spelled (source : String) : AllSpelled (scannedTokens (scan source)) :=
  fun t ht => Token.spelled_of_spells (scannedTokens_spells source t ht)

/-! ## Outcomes -/

variable {α β : Type} {a b : Bool} {s r : List Token} {t : Token} {P : α → Prop} {Q : β → Prop}

/-- The value has the property, and the tokens that are left are spelled. -/
def Outcome.Gives (P : α → Prop) : Outcome a α s → Prop
  | .ok v r _ => P v ∧ AllSpelled r
  | .fail _ r _ => AllSpelled r

namespace Outcome

theorem Gives.andThen {x : Outcome a α s}
    {next : α → (r : List Token) → r.length + a.toNat ≤ s.length → Outcome b β r}
    (hx : x.Gives P)
    (h : ∀ v r hr, P v → AllSpelled r → (next v r hr).Gives Q) : (x.andThen next).Gives Q := by
  cases x with
  | ok v r hr =>
    have hn := h v r hr hx.1 hx.2
    simp only [Outcome.andThen]
    cases hv : next v r hr with
    | ok v' r' hr' => rw [hv] at hn; exact hn
    | fail e r' hr' => rw [hv] at hn; exact hn
  | fail e r hr => exact hx

theorem Gives.map {x : Outcome a α s} {f : α → β} (hx : x.Gives P) (h : ∀ v, P v → Q (f v)) :
    (x.map f).Gives Q := by
  cases x with
  | ok v r hr => exact ⟨h v hx.1, hx.2⟩
  | fail e r hr => exact hx

theorem Gives.mono {Q : α → Prop} {x : Outcome a α s} (hx : x.Gives P) (h : ∀ v, P v → Q v) :
    x.Gives Q := by
  cases x with
  | ok v r hr => exact ⟨h v hx.1, hx.2⟩
  | fail e r hr => exact hx

theorem Gives.within {x : Outcome a α r} (hx : x.Gives P) (h : r.length ≤ s.length) :
    (x.within h).Gives P := by
  cases x with
  | ok v r hr => exact hx
  | fail e r hr => exact hx

theorem Gives.past {x : Outcome a α r} (hx : x.Gives P) : (x.past : Outcome b α (t :: r)).Gives P := by
  cases x with
  | ok v r hr => exact hx
  | fail e r hr => exact hx

theorem Gives.done {v : α} (hv : P v) (hs : AllSpelled s) : (Outcome.done v s).Gives P :=
  ⟨hv, hs⟩

theorem Gives.one {v : α} (hv : P v) (hr : AllSpelled r) :
    (Outcome.one v t r : Outcome b α (t :: r)).Gives P :=
  ⟨hv, hr⟩

end Outcome

/-- The value of a recovering rule has the property, and the tokens that are left are spelled. -/
def Reply.Gives (P : α → Prop) (x : Reply a α s) : Prop :=
  x.outcome.Gives P

namespace Reply

theorem Gives.quiet {o : Outcome a α s} (h : o.Gives P) : (Reply.quiet o).Gives P :=
  h

theorem Gives.andThen {x : Reply a α s}
    {next : α → (r : List Token) → r.length + a.toNat ≤ s.length → Reply b β r}
    (hx : x.Gives P)
    (h : ∀ v r hr, P v → AllSpelled r → (next v r hr).Gives Q) : (x.andThen next).Gives Q := by
  obtain ⟨log, o⟩ := x
  cases o with
  | ok v r hr =>
    have hn := h v r hr hx.1 hx.2
    simp only [Reply.Gives, Reply.andThen] at hn ⊢
    cases hv : (next v r hr).outcome with
    | ok v' r' hr' => rw [hv] at hn; exact hn
    | fail e r' hr' => rw [hv] at hn; exact hn
  | fail e r hr => exact hx

theorem Gives.map {x : Reply a α s} {f : α → β} (hx : x.Gives P) (h : ∀ v, P v → Q (f v)) :
    (x.map f).Gives Q :=
  Outcome.Gives.map hx h

theorem Gives.past {x : Reply a α r} (hx : x.Gives P) : (x.past : Reply b α (t :: r)).Gives P :=
  Outcome.Gives.past hx

end Reply

/-! ## Rules -/

namespace Grammar

variable (final : Token)

theorem reject_gives {P : α → Prop} (cause : SyntaxCause) (hs : AllSpelled s) :
    (reject final cause s : Outcome true α s).Gives P :=
  hs

theorem expect_gives (test : Token → Bool) (cause : SyntaxCause) (hs : AllSpelled s) :
    (expect final test cause s).Gives fun t => test t = true ∧ t.Spelled := by
  cases s with
  | nil => exact hs
  | cons t rest =>
    rw [expect]
    split
    next ht => exact ⟨⟨ht, hs.head⟩, hs.tail⟩
    · exact hs

theorem expectSymbol_gives (symbol : Symbol) (cause : SyntaxCause) (hs : AllSpelled s) :
    (expectSymbol final symbol cause s).Gives fun _ => True :=
  (expect_gives final _ cause hs).mono fun _ _ => trivial

theorem expectName_gives (cause : SyntaxCause) (hs : AllSpelled s) :
    (expectName final cause s).Gives Name.Free :=
  (expect_gives final _ cause hs).map fun _ h => h.2.name (by simpa using h.1)

/-! ## Expressions -/

theorem Level.combine_shaped (level : Level) {left right : Expr Unit} (operator : Token)
    (hl : left.Shaped) (hr : right.Shaped) : (level.combine left operator right).Shaped := by
  cases level <;> exact ⟨hl, hr⟩

theorem assignTo?_shaped {target value e : Expr Unit} (h : assignTo? target value = some e)
    (ht : target.Shaped) (hv : value.Shaped) : e.Shaped := by
  cases target <;> cases h
  · exact ⟨ht, hv⟩
  · exact ⟨ht, hv⟩

theorem suffix_gives {e : Expr Unit} (he : e.Shaped) (hs : AllSpelled s) :
    (suffix e s).Gives Expr.Shaped := by
  cases s with
  | nil => exact .done he hs
  | cons t rest =>
    rw [suffix]
    split
    · exact .one he hs.tail
    · exact .done he hs

theorem superAccess_gives {keyword : Name} (hk : keyword.text = "super") (hs : AllSpelled s) :
    (superAccess final keyword s).Gives Expr.Shaped :=
  (expectSymbol_gives final .dot _ hs).andThen fun _ _ _ _ hr =>
    (expectName_gives final _ hr).map fun _ _ => hk

/-- Arguments have the shape. -/
def ArgumentsShaped (found : List (Expr Unit) × Nat) : Prop :=
  Expr.ShapedAll found.1

mutual

theorem expression_gives (s : List Token) (hs : AllSpelled s) :
    (expression final s).Gives Expr.Shaped := by
  unfold expression
  exact (operators_gives .or s hs).andThen fun target r _ ht hr => assignment_gives target r ht hr
termination_by 32 * s.length + 20
decreasing_by
  all_goals
    simp only [Level.height, Bool.toNat_true] at *
    omega

theorem assignment_gives (target : Expr Unit) (s : List Token) (ht : target.Shaped)
    (hs : AllSpelled s) : (assignment final target s).Gives Expr.Shaped := by
  match s, hs with
  | [], hs => unfold assignment; exact .done ht hs
  | t :: rest, hs =>
    unfold assignment
    split
    · refine ((expression_gives rest hs.tail).andThen fun value r _ hv hr => ?_).past
      split
      next e he => exact .done (assignTo?_shaped he ht hv) hr
      · exact hr
    · exact .done ht hs
termination_by 32 * s.length

theorem operators_gives (level : Level) (s : List Token) (hs : AllSpelled s) :
    (operators final level s).Gives Expr.Shaped := by
  unfold operators
  exact (operand_gives level s hs).andThen fun left r _ hl hr => moreOperands_gives level left r hl hr
termination_by 32 * s.length + 2 * level.height + 5

theorem moreOperands_gives (level : Level) (left : Expr Unit) (s : List Token) (hl : left.Shaped)
    (hs : AllSpelled s) : (moreOperands final level left s).Gives Expr.Shaped := by
  match s, hs with
  | [], hs => unfold moreOperands; exact .done hl hs
  | t :: rest, hs =>
    unfold moreOperands
    split
    · refine ((operand_gives level rest hs.tail).andThen fun right r _ hr hs => ?_).past
      exact moreOperands_gives level _ r (level.combine_shaped t hl hr) hs
    · exact .done hl hs
termination_by 32 * s.length
decreasing_by
  all_goals
    have := level.height_le
    simp only [List.length_cons, Bool.toNat_true] at *
    omega

theorem operand_gives (level : Level) (s : List Token) (hs : AllSpelled s) :
    (operand final level s).Gives Expr.Shaped := by
  unfold operand
  cases level with
  | or => exact operators_gives .and s hs
  | and => exact operators_gives .equality s hs
  | equality => exact operators_gives .comparison s hs
  | comparison => exact operators_gives .term s hs
  | term => exact operators_gives .factor s hs
  | factor => exact unary_gives s hs
termination_by 32 * s.length + 2 * level.height + 4
decreasing_by all_goals simp [Level.height]

theorem unary_gives (s : List Token) (hs : AllSpelled s) : (unary final s).Gives Expr.Shaped := by
  match s, hs with
  | [], hs => unfold unary; exact suffixed_gives [] hs
  | t :: rest, hs =>
    unfold unary
    split
    next ht => exact ((unary_gives rest hs.tail).map fun _ h => ⟨ht, h⟩).past
    · exact suffixed_gives (t :: rest) hs
termination_by 32 * s.length + 5

theorem suffixed_gives (s : List Token) (hs : AllSpelled s) :
    (suffixed final s).Gives Expr.Shaped := by
  unfold suffixed
  exact (call_gives s hs).andThen fun _ _ _ he hr => suffix_gives he hr
termination_by 32 * s.length + 4

theorem call_gives (s : List Token) (hs : AllSpelled s) : (call final s).Gives Expr.Shaped := by
  unfold call
  exact (primary_gives s hs).andThen fun e r _ he hr => moreCalls_gives e r he hr
termination_by 32 * s.length + 3

theorem moreCalls_gives (e : Expr Unit) (s : List Token) (he : e.Shaped) (hs : AllSpelled s) :
    (moreCalls final e s).Gives Expr.Shaped := by
  match s, hs with
  | [], hs => unfold moreCalls; exact .done he hs
  | t :: rest, hs =>
    unfold moreCalls
    split
    · exact ((arguments_gives rest hs.tail).andThen fun found r _ hf hr =>
        moreCalls_gives (.call e found.2 found.1) r ⟨he, hf⟩ hr).past
    · split
      · exact ((expectName_gives final _ hs.tail).andThen fun name r _ _ hr =>
          moreCalls_gives (.get e name) r he hr).past
      · exact .done he hs
termination_by 32 * s.length

theorem arguments_gives (s : List Token) (hs : AllSpelled s) :
    (arguments final s).Gives ArgumentsShaped := by
  match s, hs with
  | [], hs => unfold arguments; exact argumentList_gives 0 [] hs
  | t :: rest, hs =>
    unfold arguments
    split
    · exact .one trivial hs.tail
    · exact argumentList_gives 0 (t :: rest) hs
termination_by 32 * s.length + 22

theorem argumentList_gives (count : Nat) (s : List Token) (hs : AllSpelled s) :
    (argumentList final count s).Gives ArgumentsShaped := by
  unfold argumentList
  split
  · exact reject_gives final _ hs
  · exact (expression_gives s hs).andThen fun e r _ he hr =>
      (moreArguments_gives count r hr).map fun _ hf => ⟨he, hf⟩
termination_by 32 * s.length + 21

theorem moreArguments_gives (count : Nat) (s : List Token) (hs : AllSpelled s) :
    (moreArguments final count s).Gives ArgumentsShaped := by
  match s, hs with
  | [], hs => unfold moreArguments; exact reject_gives final _ hs
  | t :: rest, hs =>
    unfold moreArguments
    split
    · exact (argumentList_gives (count + 1) rest hs.tail).past
    · split
      · exact .one trivial hs.tail
      · exact reject_gives final _ hs
termination_by 32 * s.length

theorem primary_gives (s : List Token) (hs : AllSpelled s) :
    (primary final s).Gives Expr.Shaped := by
  match s, hs with
  | [], hs => unfold primary; exact reject_gives final _ hs
  | t :: rest, hs =>
    unfold primary
    split
    · exact .one trivial hs.tail
    · exact .one trivial hs.tail
    · exact .one trivial hs.tail
    · exact .one trivial hs.tail
    · exact .one trivial hs.tail
    next hk => exact .one (hs.head.word "this" _ rfl hk) hs.tail
    next hk => exact (superAccess_gives final (hs.head.word "super" _ rfl hk) hs.tail).past
    next hk => exact .one (hs.head.name hk) hs.tail
    · refine ((expression_gives rest hs.tail).andThen fun e r _ he hr => ?_).past
      exact (expectSymbol_gives final .rightParen _ hr).map fun _ _ => he
    · exact reject_gives final _ hs
termination_by 32 * s.length + 2

end

/-! ## Statements without statements inside -/

theorem typeName?_gives (hs : AllSpelled s) : (typeName? final s).Gives fun _ => True := by
  cases s with
  | nil => exact .done trivial hs
  | cons t rest =>
    rw [typeName?]
    split
    · exact ((expect_gives final _ _ hs.tail).map fun _ _ => trivial).past
    · exact .done trivial hs

theorem initializer?_gives (hs : AllSpelled s) : (initializer? final s).Gives Expr.ShapedOption := by
  cases s with
  | nil => exact .done trivial hs
  | cons t rest =>
    rw [initializer?]
    split
    · exact ((expression_gives final rest hs.tail).map (f := some)
      (Q := Expr.ShapedOption) fun _ h => h).past
    · exact .done trivial hs

theorem varDeclaration_gives (hs : AllSpelled s) :
    (varDeclaration final s).Gives VarDecl.Shaped :=
  (expectName_gives final _ hs).andThen fun _ _ _ hn hr =>
    (typeName?_gives final hr).andThen fun _ _ _ _ hr =>
      (initializer?_gives final hr).andThen fun _ _ _ hi hr =>
        (expectSymbol_gives final .semicolon _ hr).map fun _ _ => ⟨hn, hi⟩

theorem parameter_gives (hs : AllSpelled s) :
    (parameter final s).Gives fun p => p.name.Free :=
  (expectName_gives final _ hs).andThen fun _ _ _ hn hr =>
    (expectSymbol_gives final .colon _ hr).andThen fun _ _ _ _ hr =>
      (expect_gives final _ _ hr).map fun _ _ => hn

theorem parameterList_gives (count : Nat) (s : List Token) (hs : AllSpelled s) :
    (parameterList final count s).Gives fun ps => ∀ p ∈ ps, p.name.Free := by
  unfold parameterList
  split
  · exact reject_gives final _ hs
  · refine (parameter_gives final hs).andThen fun p r _ hp hr => ?_
    split
    · exact reject_gives final _ hr
    next t rest _ =>
      split
      · refine ((parameterList_gives (count + 1) rest hr.tail).map fun ps hps => ?_).past
        exact List.forall_mem_cons.2 ⟨hp, hps⟩
      · split
        · exact .one (List.forall_mem_cons.2 ⟨hp, fun _ h => absurd h List.not_mem_nil⟩) hr.tail
        · exact reject_gives final _ hr
termination_by s.length
decreasing_by simp_all; omega

theorem parameters_gives (hs : AllSpelled s) :
    (parameters final s).Gives fun ps => ∀ p ∈ ps, p.name.Free := by
  cases s with
  | nil => exact parameterList_gives final 0 [] hs
  | cons t rest =>
    rw [parameters]
    split
    · exact .one (fun _ h => absurd h List.not_mem_nil) hs.tail
    · exact parameterList_gives final 0 (t :: rest) hs

theorem header_gives (kind : RoutineKind) (hs : AllSpelled s) :
    (header final kind s).Gives fun found => found.1.Free ∧ ∀ p ∈ found.2.1, p.name.Free :=
  (expectName_gives final _ hs).andThen fun _ _ _ hn hr =>
    (expectSymbol_gives final .leftParen _ hr).andThen fun _ _ _ _ hr =>
      (parameters_gives final hr).andThen fun _ _ _ hps hr =>
        (typeName?_gives final hr).andThen fun _ _ _ _ hr =>
          (expectSymbol_gives final .leftBrace _ hr).map fun _ _ => ⟨hn, hps⟩

/-- The statement has the shape of those that are read and may be a branch. -/
def BranchShaped (s : Stmt Unit) : Prop :=
  s.Shaped ∧ s.isBranch = true

theorem expressionStatement_gives (hs : AllSpelled s) :
    (expressionStatement final s).Gives BranchShaped :=
  (expression_gives final s hs).andThen fun _ _ _ he hr =>
    (expectSymbol_gives final .semicolon _ hr).map fun _ _ => ⟨he, rfl⟩

theorem printStatement_gives (hs : AllSpelled s) : (printStatement final s).Gives BranchShaped :=
  (expression_gives final s hs).andThen fun _ _ _ he hr =>
    (expectSymbol_gives final .semicolon _ hr).map fun _ _ => ⟨he, rfl⟩

theorem expressionUntil_gives (close : Symbol) (cause : SyntaxCause) (hs : AllSpelled s) :
    (expressionUntil final close cause s).Gives Expr.ShapedOption := by
  cases s with
  | nil => exact reject_gives final _ hs
  | cons t rest =>
    rw [expressionUntil]
    split
    · exact .one trivial hs.tail
    · exact (expression_gives final (t :: rest) hs).andThen fun _ _ _ he hr =>
        (expectSymbol_gives final close cause hr).map fun _ _ => he

theorem returnStatement_gives (keyword : Name) (hs : AllSpelled s) :
    (returnStatement final keyword s).Gives BranchShaped :=
  (expressionUntil_gives final .semicolon _ hs).map fun _ h => ⟨h, rfl⟩

theorem condition_gives (opening closing : SyntaxCause) (hs : AllSpelled s) :
    (condition final opening closing s).Gives Expr.Shaped :=
  (expectSymbol_gives final .leftParen opening hs).andThen fun _ _ _ _ hr =>
    (expression_gives final _ hr).andThen fun _ _ _ he hr =>
      (expectSymbol_gives final .rightParen closing hr).map fun _ _ => he

/-- The statement, if there is one, has the shape of those that are read. -/
def StatementShaped (s : Option (Stmt Unit)) : Prop :=
  ∀ v ∈ s, v.Shaped

theorem forInitializer_gives (hs : AllSpelled s) :
    (forInitializer final s).Gives StatementShaped := by
  have expressionCase (hs : AllSpelled s) :
      ((expressionStatement final s).map some).Gives StatementShaped :=
    (expressionStatement_gives final hs).map fun v hv w hw => by
      cases hw
      exact hv.1
  cases s with
  | nil => exact expressionCase hs
  | cons t rest =>
    rw [forInitializer]
    split
    · exact .one (fun _ h => absurd h (Option.not_mem_none _)) hs.tail
    · split
      · refine ((varDeclaration_gives final hs.tail).map fun d hd v hv => ?_).past
        cases hv
        exact hd
      · exact expressionCase hs

/-- The clauses of a `for` loop have the shape of those that are read. -/
structure ForClauses.Shaped (clauses : ForClauses) : Prop where
  initializer : StatementShaped clauses.initializer
  condition : Expr.ShapedOption clauses.condition
  increment : Expr.ShapedOption clauses.increment

theorem forClauses_gives (hs : AllSpelled s) : (forClauses final s).Gives ForClauses.Shaped :=
  (expectSymbol_gives final .leftParen _ hs).andThen fun _ _ _ _ hr =>
    (forInitializer_gives final hr).andThen fun _ _ _ hi hr =>
      (expressionUntil_gives final .semicolon _ hr).andThen fun _ _ _ hc hr =>
        (expressionUntil_gives final .rightParen _ hr).map fun _ hn => ⟨hi, hc, hn⟩

/-- A `for` loop may be a branch: its variable is bound in a block of its own. -/
theorem ForClauses.Shaped.loop {clauses : ForClauses} {body : Stmt Unit} (h : clauses.Shaped)
    (hb : BranchShaped body) : BranchShaped (clauses.loop body) := by
  obtain ⟨initializer, condition, increment⟩ := clauses
  obtain ⟨hi, hc, hn⟩ := h
  have hc' : (condition.getD (.literal (.boolean true))).Shaped := by
    cases condition with
    | none => trivial
    | some c => exact hc
  cases increment with
  | none =>
    cases initializer with
    | none => exact ⟨⟨hc', hb⟩, rfl⟩
    | some first => exact ⟨⟨hi first rfl, ⟨hc', hb⟩, trivial⟩, rfl⟩
  | some e =>
    have hround : BranchShaped (.block [body, .expression e]) := ⟨⟨hb.1, hn, trivial⟩, rfl⟩
    cases initializer with
    | none => exact ⟨⟨hc', hround⟩, rfl⟩
    | some first => exact ⟨⟨hi first rfl, ⟨hc', hround⟩, trivial⟩, rfl⟩

/-! ## Recovery -/

theorem resume_spelled (last : Token) {s : List Token} (hs : AllSpelled s) :
    AllSpelled (resume last s) := by
  induction s generalizing last with
  | nil => exact hs
  | cons t rest ih =>
    unfold resume
    split
    · exact hs
    · exact ih t hs.tail

theorem synchronize_spelled {s : List Token} (hs : AllSpelled s) : AllSpelled (synchronize s) := by
  cases s with
  | nil => exact hs
  | cons t rest => exact resume_spelled t hs.tail

/-- The statement of a declaration, if it has one, has the shape of those that are read, and the
tokens that are left are spelled. -/
structure Declared.Gives (x : Declared s) : Prop where
  statement : StatementShaped x.statement
  rest : AllSpelled x.rest

theorem recover_gives {x : Reply true (Stmt Unit) (t :: s)} (hx : x.Gives Stmt.Shaped) :
    (recover t s x).Gives := by
  obtain ⟨log, o⟩ := x
  cases o with
  | ok v r hr =>
    refine ⟨fun w hw => ?_, hx.2⟩
    cases hw
    exact hx.1
  | fail e r hr => exact ⟨fun _ h => (nomatch h), synchronize_spelled hx⟩

/-! ## Statements and declarations -/

theorem superclass?_gives (hs : AllSpelled s) :
    (superclass? final s).Gives SuperclassRef.ShapedOption := by
  cases s with
  | nil => exact .done trivial hs
  | cons t rest =>
    rw [superclass?]
    split
    · exact ((expectName_gives final _ hs.tail).map
      (f := fun name => some ⟨(), name⟩) (Q := SuperclassRef.ShapedOption) fun _ h => h).past
    · exact .done trivial hs

theorem classHeader_gives (hs : AllSpelled s) :
    (classHeader final s).Gives fun found =>
      found.1.Free ∧ SuperclassRef.ShapedOption found.2 :=
  (expectName_gives final _ hs).andThen fun _ _ _ hn hr =>
    (superclass?_gives final hr).andThen fun _ _ _ hc hr =>
      (expectSymbol_gives final .leftBrace _ hr).map fun _ _ => ⟨hn, hc⟩

/-- Fields and methods have the shape of those that are read. -/
def MembersShaped (ms : Members) : Prop :=
  (∀ d ∈ ms.1, d.Shaped) ∧ Stmt.ShapedRoutines ms.2

mutual

theorem statement_gives (s : List Token) (hs : AllSpelled s) :
    (statement final s).Gives BranchShaped := by
  match s, hs with
  | [], hs => unfold statement; exact (expressionStatement_gives final hs : Outcome.Gives _ _)
  | t :: rest, hs =>
    unfold statement
    split
    · exact ((Reply.Gives.quiet (forClauses_gives final hs.tail)).andThen fun clauses r _ hc hr =>
        (statement_gives r hr).map fun _ hb => hc.loop hb).past
    · exact ((Reply.Gives.quiet (condition_gives final _ _ hs.tail)).andThen fun c r _ hc hr =>
        (statement_gives r hr).andThen fun thenBranch r _ hb hr =>
          elseBranch_gives c thenBranch r hc hb hr).past
    · exact ((Reply.Gives.quiet (condition_gives final _ _ hs.tail)).andThen fun c r _ hc hr =>
        (statement_gives r hr).map fun _ hb => ⟨⟨hc, hb⟩, rfl⟩).past
    · exact ((returnStatement_gives final t.toName hs.tail).past : Outcome.Gives _ _)
    · exact ((body_gives rest hs.tail).map fun _ h => ⟨h, rfl⟩).past
    · exact ((printStatement_gives final hs.tail).past : Outcome.Gives _ _)
    · exact (expressionStatement_gives final hs : Outcome.Gives _ _)
termination_by 8 * s.length + 1

theorem elseBranch_gives (c : Expr Unit) (thenBranch : Stmt Unit) (s : List Token) (hc : c.Shaped)
    (hb : BranchShaped thenBranch) (hs : AllSpelled s) :
    (elseBranch final c thenBranch s).Gives BranchShaped := by
  match s, hs with
  | [], hs => unfold elseBranch; exact Outcome.Gives.done ⟨⟨hc, hb⟩, rfl⟩ hs
  | t :: rest, hs =>
    unfold elseBranch
    split
    · exact ((statement_gives rest hs.tail).map fun _ h => ⟨⟨hc, hb, h⟩, rfl⟩).past
    · exact Outcome.Gives.done ⟨⟨hc, hb⟩, rfl⟩ hs
termination_by 8 * s.length

theorem body_gives (s : List Token) (hs : AllSpelled s) : (body final s).Gives Stmt.ShapedAll := by
  match s, hs with
  | [], hs => unfold body; exact reject_gives final _ hs
  | t :: rest, hs =>
    unfold body
    split
    · exact Outcome.Gives.one trivial hs.tail
    · have hd := declaration_gives t rest hs
      generalize hx : declaration final t rest = x at hd
      obtain ⟨errors, first, r, fewer⟩ := x
      have hlt : r.length ≤ rest.length := Nat.le_of_lt_succ fewer
      dsimp only
      refine Outcome.Gives.within ((body_gives r hd.rest).map fun others ho => ?_)
        (Nat.le_of_lt fewer)
      cases first with
      | none => exact ho
      | some v => exact ⟨hd.statement v rfl, ho⟩
termination_by 8 * s.length + 3
decreasing_by
  all_goals
    simp only [List.length_cons]
    omega

theorem declaration_gives (t : Token) (s : List Token) (hs : AllSpelled (t :: s)) :
    (declaration final t s).Gives := by
  unfold declaration
  split
  · exact recover_gives (classDeclaration_gives s hs.tail).past
  · exact recover_gives ((routine_gives .function s hs.tail).map (f := .function)
      (Q := Stmt.Shaped) fun _ h => h).past
  · exact recover_gives (Reply.Gives.quiet
      ((varDeclaration_gives final hs.tail).map (f := .var) (Q := Stmt.Shaped) fun _ h => h).past)
  · exact recover_gives ((statement_gives (t :: s) hs).mono fun _ h => h.1)
termination_by 8 * s.length + 10

theorem routine_gives (kind : RoutineKind) (s : List Token) (hs : AllSpelled s) :
    (routine final kind s).Gives Stmt.ShapedRoutine := by
  unfold routine
  exact (Reply.Gives.quiet (header_gives final kind hs)).andThen fun found r _ hf hr =>
    (body_gives r hr).map fun _ h => ⟨hf.1, hf.2, h⟩
termination_by 8 * s.length
decreasing_by simp only [Bool.toNat_true] at *; omega

theorem classDeclaration_gives (s : List Token) (hs : AllSpelled s) :
    (classDeclaration final s).Gives Stmt.Shaped := by
  unfold classDeclaration
  exact (Reply.Gives.quiet (classHeader_gives final hs)).andThen fun found r _ hf hr =>
    (members_gives r hr).map fun _ h => ⟨hf.1, hf.2, h.1, h.2⟩
termination_by 8 * s.length
decreasing_by simp only [Bool.toNat_true] at *; omega

theorem members_gives (s : List Token) (hs : AllSpelled s) :
    (members final s).Gives MembersShaped := by
  match s, hs with
  | [], hs => unfold members; exact reject_gives final _ hs
  | t :: rest, hs =>
    unfold members
    split
    · exact Outcome.Gives.one ⟨fun _ h => (nomatch h), trivial⟩ hs.tail
    · split
      · refine ((Reply.Gives.quiet (varDeclaration_gives final hs.tail)).andThen
          fun f r _ hf hr => ?_).past
        exact (members_gives r hr).map fun ms h => ⟨List.forall_mem_cons.2 ⟨hf, h.1⟩, h.2⟩
      · exact (routine_gives .method (t :: rest) hs).andThen fun m r _ hm hr =>
          (members_gives r hr).map fun ms h => ⟨h.1, hm, h.2⟩
termination_by 8 * s.length + 1
decreasing_by
  all_goals
    simp only [List.length_cons, Bool.toNat_true] at *
    omega

end

theorem program_shaped (s : List Token) (hs : AllSpelled s) :
    Stmt.ShapedAll (program final s).2 := by
  match s, hs with
  | [], _ => unfold program; exact trivial
  | t :: rest, hs =>
    unfold program
    have hd := declaration_gives final t rest hs
    generalize hx : declaration final t rest = x at hd
    obtain ⟨errors, first, r, fewer⟩ := x
    dsimp only
    have ho := program_shaped r hd.rest
    cases first with
    | none => exact ho
    | some v => exact ⟨hd.statement v rfl, ho⟩
termination_by s.length
decreasing_by exact fewer

end Grammar

/-- A program that tokens spell has the shape, if the tokens are spelled. -/
theorem parseTokens_shaped {tokens : List Token} {program : List (Stmt Unit)}
    (hs : AllSpelled tokens) (h : parseTokens tokens = .ok program) : Stmt.ShapedAll program := by
  rw [parseTokens_eq_read, Grammar.read] at h
  split at h
  · cases h
    trivial
  next final _ =>
    have hp := Grammar.program_shaped final (beforeEnd tokens)
      fun t ht => hs t (List.takeWhile_sublist _ |>.subset ht)
    split at h
    next statements hq =>
      cases h
      rw [hq] at hp
      exact hp
    · cases h

/-- A program that a source spells has the shape. -/
theorem parse_shaped {source : String} {program : List (Stmt Unit)}
    (h : parse source = .ok program) : Stmt.ShapedAll program := by
  unfold parse at h
  dsimp only at h
  split at h
  next hp _ =>
    cases h
    exact parseTokens_shaped (scannedTokens_spelled source) hp
  · cases h
  · cases h

/-- A program whose uses of names are numbered has the shape. -/
theorem Loaded.ofProgram_shaped (first : NodeId) {program : List (Stmt Unit)}
    (h : Stmt.ShapedAll program) : Stmt.ShapedAll (Loaded.ofProgram first program).program :=
  Stmt.numberAll_shaped program first h

end ClassScript
