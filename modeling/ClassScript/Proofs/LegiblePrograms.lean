import ClassScript.Number.Exact
import ClassScript.Proofs.Derivation
import ClassScript.Proofs.Shape
import ClassScript.Proofs.Spellings

/-!
# Legible programs

`Expr.Legible` and `Stmt.Legible` say what the texts in a program that was read can be: names are words that
are not reserved, types are words, operators are those of the grammar, and numbers are finite if those in the
source are. So it is for every program that legible tokens derive (`Derives.program_legible`).
-/

set_option autoImplicit false

namespace ClassScript

variable {ι : Type}

/-! ## Tokens and names -/

/-- The value is a number, not an infinity. -/
def Exact.isFinite : Exact → Bool
  | .finite _ _ _ => true
  | _ => false

/-- The kind is not that of an infinite number. -/
def TokenKind.isFinite : TokenKind → Bool
  | .number x => (Exact.ofFloat x).isFinite
  | _ => true

/-- The token is spelled after its kind and is no infinite number. -/
structure Token.Legible (t : Token) : Prop where
  spells : t.kind.Spells t.lexeme.toList
  finite : t.kind.isFinite = true

/-- All tokens are legible. -/
def AllLegible (ts : List Token) : Prop :=
  ∀ t ∈ ts, t.Legible

/-- The name is a word that is not reserved. -/
structure Name.Legible (n : Name) : Prop where
  word : IsWord n.text.toList
  free : n.Free

/-- The token is one of the symbols. -/
def Token.Among (symbols : List Symbol) (t : Token) : Prop :=
  ∃ s ∈ symbols, t.kind = .symbol s ∧ t.lexeme = s.spelling

/-- The token is a word, reserved or not. -/
structure Token.Word (t : Token) : Prop where
  word : IsWord t.lexeme.toList
  kind : t.kind = Lexer.wordKind t.lexeme.toList

namespace Token.Legible

variable {t : Token}

theorem spelling (h : t.Legible) {s : Symbol} (hs : t.kind = .symbol s) : t.lexeme = s.spelling := by
  have hspells := h.spells
  rw [hs] at hspells
  exact String.toList_inj.1 hspells

theorem name (h : t.Legible) (ht : t.kind = .identifier) : t.toName.Legible := by
  have hspells := h.spells
  rw [ht] at hspells
  refine ⟨hspells.1, ?_⟩
  rw [Name.Free, Token.toName, ← hspells.2, String.ofList_toList]

theorem among (h : t.Legible) {symbols : List Symbol} (ht : symbols.any t.isSymbol = true) :
    t.Among symbols := by
  obtain ⟨s, hs, hkind⟩ := List.any_eq_true.1 ht
  have hkind : t.kind = .symbol s := by simpa [Token.isSymbol] using hkind
  exact ⟨s, hs, hkind, h.spelling hkind⟩

theorem typeName (h : t.Legible) (ht : Grammar.isTypeName t = true) : t.Word := by
  unfold Grammar.isTypeName at ht
  split at ht
  next s hs =>
    have hword : ∀ s ∈ [Symbol.numberWord, .stringWord, .booleanWord, .voidWord],
        IsWord s.spelling.toList ∧ TokenKind.symbol s = Lexer.wordKind s.spelling.toList := by
      simp only [List.forall_mem_cons, List.not_mem_nil, false_imp_iff, implies_true, and_true]
      refine ⟨⟨⟨_, _, rfl, rfl, ?_⟩, rfl⟩, ⟨⟨_, _, rfl, rfl, ?_⟩, rfl⟩, ⟨⟨_, _, rfl, rfl, ?_⟩, rfl⟩,
        ⟨⟨_, _, rfl, rfl, ?_⟩, rfl⟩⟩ <;> exact List.all_eq_true.1 rfl
    obtain ⟨htext, hkind⟩ := hword s (by simpa using ht)
    rw [← h.spelling hs] at htext hkind
    exact ⟨htext, hs.trans hkind⟩
  next hs =>
    obtain ⟨htext, hfree⟩ := h.name hs
    refine ⟨htext, ?_⟩
    rw [hs, Lexer.wordKind, String.ofList_toList, show Symbol.ofWord? t.lexeme = none from hfree]
  next => cases ht

end Token.Legible

theorem AllLegible.cons {t : Token} {ts : List Token} (h : AllLegible (t :: ts)) :
    t.Legible ∧ AllLegible ts :=
  List.forall_mem_cons.1 h

theorem AllLegible.append {ts us : List Token} (h : AllLegible (ts ++ us)) :
    AllLegible ts ∧ AllLegible us :=
  List.forall_mem_append.1 h

/-! ## Trees -/

/-- The operators between two operands of which both are computed. -/
def binarySymbols : List Symbol :=
  [Grammar.Level.equality, .comparison, .term, .factor].flatMap Grammar.Level.operators

/-- The operators between two operands of which the second one may be left out. -/
def logicalSymbols : List Symbol :=
  [Grammar.Level.or, .and].flatMap Grammar.Level.operators

/-- The constant is no infinite number. -/
def Literal.Legible : Literal → Prop
  | .number x => (Exact.ofFloat x).isFinite = true
  | _ => True

mutual

/-- Names, operators and numbers in the expression can be told from their texts. -/
def Expr.Legible : Expr ι → Prop
  | .literal value => value.Legible
  | .unary operator operand => operator.Among Grammar.prefixSymbols ∧ operand.Legible
  | .suffixed operand operator => operand.Legible ∧ operator.Among Grammar.suffixSymbols
  | .binary left operator right => left.Legible ∧ operator.Among binarySymbols ∧ right.Legible
  | .logical left operator right => left.Legible ∧ operator.Among logicalSymbols ∧ right.Legible
  | .grouping inner => inner.Legible
  | .variable _ name => name.Legible
  | .assign _ name value => name.Legible ∧ value.Legible
  | .call callee _ arguments => callee.Legible ∧ Expr.LegibleAll arguments
  | .get object name => object.Legible ∧ name.Legible
  | .set object name value => object.Legible ∧ name.Legible ∧ value.Legible
  | .this _ keyword => keyword.text = "this"
  | .super _ keyword method => keyword.text = "super" ∧ method.Legible
termination_by structural e => e

/-- The same for all expressions of a list. -/
def Expr.LegibleAll : List (Expr ι) → Prop
  | [] => True
  | e :: rest => e.Legible ∧ Expr.LegibleAll rest
termination_by structural es => es

end

/-- The same for the declaration of a variable or of a field. -/
structure VarDecl.Legible (d : VarDecl ι) : Prop where
  name : d.name.Legible
  typeName : ∀ t ∈ d.typeName, t.Word
  initializer : ∀ e ∈ d.initializer, e.Legible

/-- The same for a parameter. -/
structure Param.Legible (p : Param) : Prop where
  name : p.name.Legible
  typeName : p.typeName.Word

mutual

/-- The same for a statement. -/
def Stmt.Legible : Stmt ι → Prop
  | .expression value => value.Legible
  | .print value => value.Legible
  | .var decl => decl.Legible
  | .block body => Stmt.LegibleAll body
  | .ifThen condition thenBranch => condition.Legible ∧ thenBranch.Legible
  | .ifElse condition thenBranch elseBranch =>
    condition.Legible ∧ thenBranch.Legible ∧ elseBranch.Legible
  | .whileLoop condition body => condition.Legible ∧ body.Legible
  | .function decl => Stmt.LegibleRoutine decl
  | .returnWith keyword value => keyword.text = "return" ∧ ∀ e ∈ value, e.Legible
  | .classDecl ⟨name, superclass, fields, methods⟩ =>
    name.Legible ∧ (∀ s ∈ superclass, s.name.Legible) ∧ (∀ d ∈ fields, d.Legible) ∧
      Stmt.LegibleRoutines methods
termination_by structural s => s

/-- The same for the statements of a list. -/
def Stmt.LegibleAll : List (Stmt ι) → Prop
  | [] => True
  | s :: rest => s.Legible ∧ Stmt.LegibleAll rest
termination_by structural ss => ss

/-- The same for a function or a method. -/
def Stmt.LegibleRoutine : FunctionDecl (Stmt ι) → Prop
  | ⟨name, params, result, body⟩ =>
    name.Legible ∧ (∀ p ∈ params, p.Legible) ∧ (∀ t ∈ result, t.Word) ∧ Stmt.LegibleAll body
termination_by structural d => d

/-- The same for methods. -/
def Stmt.LegibleRoutines : List (FunctionDecl (Stmt ι)) → Prop
  | [] => True
  | d :: rest => Stmt.LegibleRoutine d ∧ Stmt.LegibleRoutines rest
termination_by structural ds => ds

end

/-! ## Derivations -/

namespace Derives

variable {ts : List Token}

theorem atom_legible {t : Token} {e : Expr Unit} : Atom t e → t.Legible → e.Legible
  | .falseWord _, _ => trivial
  | .trueWord _, _ => trivial
  | .nilWord _, _ => trivial
  | .number hx, ht => (congrArg TokenKind.isFinite hx).symm.trans ht.finite
  | .string _, _ => trivial
  | .this hs, ht => ht.spelling hs
  | .variable hn, ht => ht.name hn

theorem combine_legible {level : Grammar.Level} {left right : Expr Unit} {operator : Token}
    (hl : left.Legible) (ho : operator.Among level.operators) (hr : right.Legible) :
    (level.combine left operator right).Legible := by
  obtain ⟨s, hs, hkind⟩ := ho
  cases level with
  | or => exact ⟨hl, ⟨s, List.mem_flatMap.2 ⟨.or, by decide, hs⟩, hkind⟩, hr⟩
  | and => exact ⟨hl, ⟨s, List.mem_flatMap.2 ⟨.and, by decide, hs⟩, hkind⟩, hr⟩
  | equality => exact ⟨hl, ⟨s, List.mem_flatMap.2 ⟨.equality, by decide, hs⟩, hkind⟩, hr⟩
  | comparison => exact ⟨hl, ⟨s, List.mem_flatMap.2 ⟨.comparison, by decide, hs⟩, hkind⟩, hr⟩
  | term => exact ⟨hl, ⟨s, List.mem_flatMap.2 ⟨.term, by decide, hs⟩, hkind⟩, hr⟩
  | factor => exact ⟨hl, ⟨s, List.mem_flatMap.2 ⟨.factor, by decide, hs⟩, hkind⟩, hr⟩

mutual

theorem expression_legible {ts : List Token} {e : Expr Unit} :
    Expression ts e → AllLegible ts → e.Legible
  | .assign hn _ hv, h => ⟨h.cons.1.name hn, expression_legible hv h.cons.2.cons.2⟩
  | .set hc _ hn _ hv, h =>
    have hrest := h.append.2.cons.2
    ⟨call_legible hc h.append.1, hrest.cons.1.name hn, expression_legible hv hrest.cons.2.cons.2⟩
  | .operators ho, h => operators_legible ho h
termination_by structural d => d

theorem operators_legible {level : Grammar.Level} {ts : List Token} {e : Expr Unit} :
    Operators level ts e → AllLegible ts → e.Legible
  | .operand ho, h => operand_legible ho h
  | .join hl ho hr, h =>
    have hrest := h.append.2.cons
    combine_legible (operators_legible hl h.append.1) (hrest.1.among ho)
      (operand_legible hr hrest.2)
termination_by structural d => d

theorem operand_legible {level : Grammar.Level} {ts : List Token} {e : Expr Unit} :
    Operand level ts e → AllLegible ts → e.Legible
  | .or ho, h => operators_legible ho h
  | .and ho, h => operators_legible ho h
  | .equality ho, h => operators_legible ho h
  | .comparison ho, h => operators_legible ho h
  | .term ho, h => operators_legible ho h
  | .factor hu, h => unary_legible hu h
termination_by structural d => d

theorem unary_legible {ts : List Token} {e : Expr Unit} :
    Unary ts e → AllLegible ts → e.Legible
  | .before ho hu, h => ⟨h.cons.1.among ho, unary_legible hu h.cons.2⟩
  | .behind hc ho, h => ⟨call_legible hc h.append.1, h.append.2.cons.1.among ho⟩
  | .call hc, h => call_legible hc h
termination_by structural d => d

theorem call_legible {ts : List Token} {e : Expr Unit} : Call ts e → AllLegible ts → e.Legible
  | .primary hp, h => primary_legible hp h
  | .apply hc _ ha _ _, h =>
    ⟨call_legible hc h.append.1, arguments_legible ha h.append.2.cons.2.append.1⟩
  | .get hc _ hn, h => ⟨call_legible hc h.append.1, h.append.2.cons.2.cons.1.name hn⟩
termination_by structural d => d

theorem arguments_legible {ts : List Token} {es : List (Expr Unit)} :
    Arguments ts es → AllLegible ts → Expr.LegibleAll es
  | .none, _ => trivial
  | .some ha, h => argumentList_legible ha h
termination_by structural d => d

theorem argumentList_legible {ts : List Token} {es : List (Expr Unit)} :
    ArgumentList ts es → AllLegible ts → Expr.LegibleAll es
  | .one he, h => ⟨expression_legible he h, trivial⟩
  | .cons he _ hr, h =>
    ⟨expression_legible he h.append.1, argumentList_legible hr h.append.2.cons.2⟩
termination_by structural d => d

theorem primary_legible {ts : List Token} {e : Expr Unit} :
    Primary ts e → AllLegible ts → e.Legible
  | .atom ha, h => atom_legible ha h.cons.1
  | .super hk _ hm, h => ⟨h.cons.1.spelling hk, h.cons.2.cons.2.cons.1.name hm⟩
  | .grouping _ he _, h => (expression_legible he h.cons.2.append.1 :)
termination_by structural d => d

end

theorem option_legible {v : Option (Expr Unit)} (hv : Option? ts v) (h : AllLegible ts) :
    ∀ e ∈ v, e.Legible := by
  cases hv with
  | none => exact nofun
  | some he =>
    rintro _ ⟨⟩
    exact expression_legible he h

theorem typeName_legible {v : Option Token} (hv : TypeName ts v) (h : AllLegible ts) :
    ∀ t ∈ v, t.Word := by
  cases hv with
  | none => exact nofun
  | some _ ht =>
    rintro _ ⟨⟩
    exact h.cons.2.cons.1.typeName ht

theorem initializer_legible {v : Option (Expr Unit)} (hv : Initializer ts v) (h : AllLegible ts) :
    ∀ e ∈ v, e.Legible := by
  cases hv with
  | none => exact nofun
  | some _ he =>
    rintro _ ⟨⟩
    exact expression_legible he h.cons.2

theorem variable_legible {d : VarDecl Unit} (hd : Variable ts d) (h : AllLegible ts) :
    d.Legible := by
  obtain ⟨hn, ht, hi, -⟩ := hd
  exact ⟨h.cons.1.name hn, typeName_legible ht h.cons.2.append.1,
    initializer_legible hi h.cons.2.append.2.append.1⟩

theorem parameter_legible {p : Param} (hp : Parameter ts p) (h : AllLegible ts) : p.Legible := by
  obtain ⟨hn, -, ht⟩ := hp
  exact ⟨h.cons.1.name hn, h.cons.2.cons.2.cons.1.typeName ht⟩

theorem parameterList_legible {params : List Param} (hp : ParameterList ts params)
    (h : AllLegible ts) : ∀ p ∈ params, p.Legible := by
  induction hp with
  | one hp => exact List.forall_mem_singleton.2 (parameter_legible hp h)
  | cons hp _ _ ih =>
    exact List.forall_mem_cons.2 ⟨parameter_legible hp h.append.1, ih h.append.2.cons.2⟩

theorem parameters_legible {params : List Param} (hp : Parameters ts params) (h : AllLegible ts) :
    ∀ p ∈ params, p.Legible := by
  cases hp with
  | none => exact fun _ hp => nomatch hp
  | some hp => exact parameterList_legible hp h

theorem header_legible {name : Name} {params : List Param} {result : Option Token}
    (hd : Header ts (name, params, result)) (h : AllLegible ts) :
    name.Legible ∧ (∀ p ∈ params, p.Legible) ∧ ∀ t ∈ result, t.Word := by
  obtain ⟨hn, -, hp, -, -, ht⟩ := hd
  have hrest := h.cons.2.cons.2.append
  exact ⟨h.cons.1.name hn, parameters_legible hp hrest.1, typeName_legible ht hrest.2.cons.2⟩

theorem superclass_legible {v : Option (SuperclassRef Unit)} (hv : Superclass ts v)
    (h : AllLegible ts) : ∀ s ∈ v, s.name.Legible := by
  cases hv with
  | none => exact nofun
  | some _ hn =>
    rintro _ ⟨⟩
    exact h.cons.2.cons.1.name hn

theorem firstClause_legible {v : Option (Stmt Unit)} (hv : FirstClause ts v) (h : AllLegible ts) :
    ∀ s ∈ v, s.Legible := by
  cases hv with
  | none _ => exact nofun
  | var _ hd =>
    rintro _ ⟨⟩
    exact variable_legible hd h.cons.2
  | expression he _ =>
    rintro _ ⟨⟩
    exact expression_legible he h.append.1

theorem condition_legible {e : Expr Unit} (hc : Condition ts e) (h : AllLegible ts) : e.Legible := by
  obtain ⟨-, he, -⟩ := hc
  exact expression_legible he h.cons.2.append.1

theorem loop_legible {first : Option (Stmt Unit)} {condition increment : Option (Expr Unit)}
    {body : Stmt Unit} (hf : ∀ s ∈ first, s.Legible) (hc : ∀ e ∈ condition, e.Legible)
    (hi : ∀ e ∈ increment, e.Legible) (hb : body.Legible) :
    (Grammar.ForClauses.loop ⟨first, condition, increment⟩ body).Legible := by
  have hcondition : (condition.getD (.literal (.boolean true))).Legible := by
    cases condition with
    | none => trivial
    | some e => exact hc e rfl
  have hloop : Stmt.Legible (Grammar.ForClauses.loop ⟨none, condition, increment⟩ body) := by
    cases increment with
    | none => exact ⟨hcondition, hb⟩
    | some e => exact ⟨hcondition, hb, hi e rfl, trivial⟩
  cases first with
  | none => exact hloop
  | some s => exact ⟨hf s rfl, hloop, trivial⟩

theorem clauses_legible {clauses : Grammar.ForClauses} {body : Stmt Unit} (hc : Clauses ts clauses)
    (h : AllLegible ts) (hb : body.Legible) : (clauses.loop body).Legible := by
  obtain ⟨-, hf, hc, -, hi, -⟩ := hc
  have hrest := h.cons.2.append
  exact loop_legible (firstClause_legible hf hrest.1) (option_legible hc hrest.2.append.1)
    (option_legible hi hrest.2.append.2.cons.2.append.1) hb

mutual

theorem statement_legible {dangling : Bool} {ts : List Token} {s : Stmt Unit} :
    Statement dangling ts s → AllLegible ts → s.Legible
  | .expression he _, h => expression_legible he h.append.1
  | .print _ he _, h => expression_legible he h.cons.2.append.1
  | .returnWith hk he _, h => ⟨h.cons.1.spelling hk, option_legible he h.cons.2.append.1⟩
  | .block _ hb, h => body_legible hb h.cons.2
  | .ifThen _ hc hs, h =>
    ⟨condition_legible hc h.cons.2.append.1, statement_legible hs h.cons.2.append.2⟩
  | .ifElse _ hc hs _ he, h =>
    have hrest := h.cons.2.append.2.append
    ⟨condition_legible hc h.cons.2.append.1, statement_legible hs hrest.1,
      statement_legible he hrest.2.cons.2⟩
  | .whileLoop _ hc hs, h =>
    ⟨condition_legible hc h.cons.2.append.1, statement_legible hs h.cons.2.append.2⟩
  | .forLoop _ hc hs, h =>
    clauses_legible hc h.cons.2.append.1 (statement_legible hs h.cons.2.append.2)
termination_by structural d => d

theorem body_legible {ts : List Token} {ss : List (Stmt Unit)} :
    Body ts ss → AllLegible ts → Stmt.LegibleAll ss
  | .nil _, _ => trivial
  | .cons hd hb, h => ⟨declaration_legible hd h.append.1, body_legible hb h.append.2⟩
termination_by structural d => d

theorem declaration_legible {ts : List Token} {s : Stmt Unit} :
    Declaration ts s → AllLegible ts → s.Legible
  | .classDecl _ hn hs _ hm, h =>
    have hrest := h.cons.2.cons.2.append
    have hmembers := members_legible hm hrest.2.cons.2
    ⟨h.cons.2.cons.1.name hn, superclass_legible hs hrest.1, hmembers.1, hmembers.2⟩
  | .function _ hr, h => routine_legible hr h.cons.2
  | .var _ hd, h => variable_legible hd h.cons.2
  | .statement hs, h => statement_legible hs h
termination_by structural d => d

theorem routine_legible {ts : List Token} {d : FunctionDecl (Stmt Unit)} :
    Routine ts d → AllLegible ts → Stmt.LegibleRoutine d
  | .mk hh _ hb, h => by
    obtain ⟨hn, hp, hr⟩ := header_legible hh h.append.1
    rw [Stmt.LegibleRoutine]
    exact ⟨hn, hp, hr, body_legible hb h.append.2.cons.2⟩
termination_by structural d => d

theorem members_legible {ts : List Token} {fields : List (VarDecl Unit)}
    {methods : List (FunctionDecl (Stmt Unit))} :
    MembersOf ts fields methods → AllLegible ts →
      (∀ d ∈ fields, d.Legible) ∧ Stmt.LegibleRoutines methods
  | .nil _, _ => ⟨nofun, trivial⟩
  | .field _ hd hm, h =>
    have hmore := members_legible hm h.cons.2.append.2
    ⟨List.forall_mem_cons.2 ⟨variable_legible hd h.cons.2.append.1, hmore.1⟩, hmore.2⟩
  | .method hr hm, h =>
    have hmore := members_legible hm h.append.2
    ⟨hmore.1, routine_legible hr h.append.1, hmore.2⟩
termination_by structural d => d

end

theorem program_legible {ss : List (Stmt Unit)} (hp : Program ts ss) (h : AllLegible ts) :
    Stmt.LegibleAll ss := by
  induction hp with
  | nil => trivial
  | cons hd _ ih => exact ⟨declaration_legible hd h.append.1, ih h.append.2⟩

end Derives

end ClassScript
