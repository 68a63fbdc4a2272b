import ClassScript.Proofs.ParserSoundness

/-!
# What is derived is read

A rule reads what its grammar rule derives if the tokens behind it cannot continue it: operators of
its own level or of a tighter one, a call, a property, or an `else` behind a dangling statement.
`Starts` says with which tokens expressions start, so that the rules choose the right branch. With
the other direction this makes the parser and the grammar agree on every list of tokens
(`parseTokens_iff_program`).
-/

set_option autoImplicit false

namespace ClassScript

open Derives Outcome

namespace Grammar

variable {final t : Token} {ts us s r : List Token} {e : Expr Unit}

/-! ## First tokens -/

/-- The token starts a primary expression. -/
def startsPrimary (t : Token) : Bool :=
  match t.kind with
  | .symbol s => s ∈ [Symbol.falseWord, .trueWord, .nilWord, .thisWord, .superWord, .leftParen]
  | .identifier => true
  | .number _ => true
  | .string _ => true
  | .eof => false

/-- The token starts an expression. -/
def startsExpression (t : Token) : Bool :=
  startsPrimary t || prefixSymbols.any t.isSymbol

/-- The tokens start with one that passes the test. -/
def Starts (test : Token → Bool) (ts : List Token) : Prop :=
  ∃ t rest, ts = t :: rest ∧ test t = true

theorem Starts.append {test : Token → Bool} (h : Starts test ts) (us : List Token) :
    Starts test (ts ++ us) := by
  obtain ⟨t, rest, rfl, ht⟩ := h
  exact ⟨t, rest ++ us, rfl, ht⟩

theorem Starts.mono {p q : Token → Bool} (h : Starts p ts) (hpq : ∀ t, p t = true → q t = true) :
    Starts q ts := by
  obtain ⟨t, rest, rfl, ht⟩ := h
  exact ⟨t, rest, rfl, hpq t ht⟩

theorem atom_starts {t : Token} (h : Atom t e) : startsPrimary t = true := by
  cases h <;> simp_all [startsPrimary]

theorem primary_starts (h : Primary ts e) : Starts startsPrimary ts := by
  cases h with
  | atom h => exact ⟨_, [], rfl, atom_starts h⟩
  | super hk _ _ => exact ⟨_, _, rfl, by simp [startsPrimary, hk]⟩
  | grouping hk _ _ => exact ⟨_, _, rfl, by simp [startsPrimary, hk]⟩

theorem call_starts {ts : List Token} {e : Expr Unit} : Call ts e → Starts startsPrimary ts
  | .primary h => primary_starts h
  | .apply h _ _ _ _ => (call_starts h).append _
  | .get h _ _ => (call_starts h).append _
termination_by structural h => h

theorem call_starts_expression (h : Call ts e) : Starts startsExpression ts :=
  (call_starts h).mono fun t ht => by rw [startsExpression, ht, Bool.true_or]

theorem unary_starts (h : Unary ts e) : Starts startsExpression ts := by
  cases h with
  | before ho _ => exact ⟨_, _, rfl, by rw [startsExpression, ho, Bool.or_true]⟩
  | behind h _ => exact (call_starts_expression h).append _
  | call h => exact call_starts_expression h

mutual

theorem operators_starts {level : Level} {ts : List Token} {e : Expr Unit} :
    Operators level ts e → Starts startsExpression ts
  | .operand h => operand_starts h
  | .join h _ _ => (operators_starts h).append _
termination_by structural h => h

theorem operand_starts {level : Level} {ts : List Token} {e : Expr Unit} :
    Operand level ts e → Starts startsExpression ts
  | .or h => operators_starts h
  | .and h => operators_starts h
  | .equality h => operators_starts h
  | .comparison h => operators_starts h
  | .term h => operators_starts h
  | .factor h => unary_starts h
termination_by structural h => h

end

theorem expression_starts (h : Expression ts e) : Starts startsExpression ts := by
  cases h with
  | assign hk _ _ => exact ⟨_, _, rfl, by simp [startsExpression, startsPrimary, hk]⟩
  | set h _ _ _ _ => exact (call_starts_expression h).append _
  | operators h => exact operators_starts h

theorem isSymbol_congr {symbol : Symbol} (ht : t.kind = .symbol symbol) :
    t.isSymbol = (⟨.symbol symbol, "", 0⟩ : Token).isSymbol := by
  funext x
  simp only [Token.isSymbol, ht]

theorem startsExpression_symbol {symbol : Symbol} (ht : t.kind = .symbol symbol) :
    startsExpression t = startsExpression ⟨.symbol symbol, "", 0⟩ := by
  simp only [startsExpression, startsPrimary, isSymbol_congr ht, ht]

/-- A symbol that starts no expression is not the first one of an expression. -/
theorem not_starts {symbol : Symbol} (ht : startsExpression t = true)
    (hs : startsExpression ⟨.symbol symbol, "", 0⟩ = false) : t.kind ≠ .symbol symbol := by
  intro hk
  rw [startsExpression_symbol hk, hs] at ht
  cases ht

/-! ## Tokens behind an expression -/

/-- None of the symbols stands first. -/
def StopsAt (symbols : List Symbol) (r : List Token) : Prop :=
  ∀ t rest, r = t :: rest → symbols.any t.isSymbol = false

/-- The symbols that continue a call or stand behind it. -/
def callSymbols : List Symbol :=
  [.leftParen, .dot, .plusPlus, .minusMinus]

/-- The symbols that continue an operand of a level. -/
def Level.inner (level : Level) : List Symbol :=
  ([Level.or, .and, .equality, .comparison, .term, .factor].filter
    (·.height < level.height)).flatMap Level.operators ++ callSymbols

/-- The symbols that continue an expression. -/
def expressionSymbols : List Symbol :=
  .equal :: (Level.or.operators ++ Level.or.inner)

theorem StopsAt.mono {p q : List Symbol} (h : StopsAt p r) (hqp : ∀ symbol ∈ q, symbol ∈ p) :
    StopsAt q r := by
  intro t rest hr
  have hp := h t rest hr
  rw [List.any_eq_false] at hp ⊢
  exact fun symbol hs => hp symbol (hqp symbol hs)

/-- A symbol that is not among them stands first. -/
theorem stopsAt_cons {symbols : List Symbol} {symbol : Symbol} (ht : t.kind = .symbol symbol)
    (hs : symbol ∉ symbols) : StopsAt symbols (t :: r) := by
  rintro _ _ ⟨⟩
  rw [List.any_eq_false]
  intro x hx hxt
  rw [Token.isSymbol_iff, ht] at hxt
  cases hxt
  exact hs hx

theorem StopsAt.not_isSymbol {symbols : List Symbol} {symbol : Symbol}
    (h : StopsAt symbols (t :: r)) (hs : symbol ∈ symbols) : t.isSymbol symbol = false := by
  have hany := h t r rfl
  rw [List.any_eq_false] at hany
  exact Bool.eq_false_iff.2 (hany symbol hs)

/-- An operator of a level continues none of its operands. -/
theorem Level.stopsAt_inner {level : Level} (ht : level.admits t = true) :
    StopsAt level.inner (t :: r) := by
  obtain ⟨symbol, hs, hsym⟩ := List.any_eq_true.1 ht
  have hk := Token.isSymbol_iff.1 hsym
  refine stopsAt_cons hk ?_
  clear hk hsym ht
  revert symbol
  cases level <;> decide

/-! ## Expressions -/

theorem moreOperands_stops {level : Level} (h : StopsAt level.operators r) :
    (moreOperands final level e r).Reads e r := by
  cases r with
  | nil =>
    unfold moreOperands
    exact reads_done.2 ⟨rfl, rfl⟩
  | cons t rest =>
    unfold moreOperands
    rw [if_neg (by rw [Level.admits, h t rest rfl]; simp)]
    exact reads_done.2 ⟨rfl, rfl⟩

theorem moreCalls_stops (h : StopsAt [.leftParen, .dot] r) : (moreCalls final e r).Reads e r := by
  cases r with
  | nil =>
    unfold moreCalls
    exact reads_done.2 ⟨rfl, rfl⟩
  | cons t rest =>
    unfold moreCalls
    rw [if_neg (by rw [h.not_isSymbol (by decide)]; simp),
      if_neg (by rw [h.not_isSymbol (by decide)]; simp)]
    exact reads_done.2 ⟨rfl, rfl⟩

theorem suffix_stops (h : StopsAt suffixSymbols r) : (suffix e r).Reads e r := by
  cases r with
  | nil => exact reads_done.2 ⟨rfl, rfl⟩
  | cons t rest =>
    rw [suffix, if_neg (by rw [h t rest rfl]; simp)]
    exact reads_done.2 ⟨rfl, rfl⟩

theorem assignment_stops (h : StopsAt [.equal] r) : (assignment final e r).Reads e r := by
  cases r with
  | nil =>
    unfold assignment
    exact reads_done.2 ⟨rfl, rfl⟩
  | cons t rest =>
    unfold assignment
    rw [if_neg (by rw [h.not_isSymbol (by decide)]; simp)]
    exact reads_done.2 ⟨rfl, rfl⟩

/-- Reading goes on after a value. -/
theorem reads_then {α β : Type} {a b : Bool} {x : Outcome a α s}
    {next : α → (r : List Token) → r.length + a.toNat ≤ s.length → Outcome b β r} {v : α} {u : β}
    {r' : List Token} (hx : x.Reads v r) (hn : ∀ h, (next v r h).Reads u r') :
    (x.andThen next).Reads u r' := by
  obtain ⟨h, he⟩ := hx
  exact reads_andThen.2 ⟨v, r, h, ⟨h, he⟩, hn h⟩

theorem operators_of_operand {level : Level} (h : (operand final level s).Reads e r)
    (hr : StopsAt level.operators r) : (operators final level s).Reads e r := by
  unfold operators
  exact reads_then h fun _ => moreOperands_stops hr

/-- What stands without operators of a level is read at every level. -/
theorem operators_of_unary (h : (unary final s).Reads e r)
    (hr : StopsAt (Level.or.operators ++ Level.or.inner) r) :
    (operators final .or s).Reads e r := by
  have hfactor : (operators final .factor s).Reads e r := by
    refine operators_of_operand ?_ (hr.mono (by decide))
    unfold operand
    exact h
  have hterm : (operators final .term s).Reads e r := by
    refine operators_of_operand ?_ (hr.mono (by decide))
    unfold operand
    exact hfactor
  have hcomparison : (operators final .comparison s).Reads e r := by
    refine operators_of_operand ?_ (hr.mono (by decide))
    unfold operand
    exact hterm
  have hequality : (operators final .equality s).Reads e r := by
    refine operators_of_operand ?_ (hr.mono (by decide))
    unfold operand
    exact hcomparison
  have hand : (operators final .and s).Reads e r := by
    refine operators_of_operand ?_ (hr.mono (by decide))
    unfold operand
    exact hequality
  refine operators_of_operand ?_ (hr.mono (by decide))
  unfold operand
  exact hand

/-- No symbol in front of an expression starts a primary one. -/
theorem not_prefix_of_startsPrimary (h : startsPrimary t = true) :
    prefixSymbols.any t.isSymbol = false := by
  rw [List.any_eq_false]
  intro symbol hs hsym
  simp only [startsPrimary, Token.isSymbol_iff.1 hsym] at h
  clear hsym
  revert symbol
  decide

theorem unary_of_call (h : (call final s).Reads e r) (hs : Starts startsPrimary s)
    (hr : StopsAt suffixSymbols r) : (unary final s).Reads e r := by
  obtain ⟨t, rest, rfl, ht⟩ := hs
  unfold unary
  rw [if_neg (by rw [not_prefix_of_startsPrimary ht]; simp)]
  unfold suffixed
  exact reads_then h fun _ => suffix_stops hr

/-- A call and an equals sign behind it start an assignment. -/
theorem expression_of_target {equal : Token} {target value : Expr Unit}
    (hc : (call final (ts ++ equal :: s)).Reads target (equal :: s)) (hs : Starts startsPrimary ts)
    (he : equal.kind = .symbol .equal) (hv : (expression final s).Reads value r)
    (ha : assignTo? target value = some e) : (expression final (ts ++ equal :: s)).Reads e r := by
  have htarget : (operators final .or (ts ++ equal :: s)).Reads target (equal :: s) :=
    operators_of_unary (unary_of_call hc (hs.append _) (stopsAt_cons he (by decide)))
      (stopsAt_cons he (by decide))
  unfold expression
  refine reads_then htarget fun _ => ?_
  unfold assignment
  rw [if_pos (Token.isSymbol_iff.2 he)]
  refine reads_past.2 (reads_then hv fun _ => ?_)
  rw [ha]
  exact reads_done.2 ⟨rfl, rfl⟩

theorem atom_reads (h : Atom t e) (r : List Token) : (primary final (t :: r)).Reads e r := by
  unfold primary
  cases h with
  | _ hk =>
    simp only [hk]
    exact reads_one.2 ⟨rfl, rfl⟩

theorem expectSymbol_reads {symbol : Symbol} {cause : SyntaxCause} (h : t.kind = .symbol symbol) :
    (expectSymbol final symbol cause (t :: r)).Reads t r :=
  reads_expectSymbol.2 ⟨rfl, h⟩

theorem expectName_reads {cause : SyntaxCause} (h : t.kind = .identifier) :
    (expectName final cause (t :: r)).Reads t.toName r :=
  reads_expectName.2 ⟨t, rfl, h, rfl⟩

/-- A property is read behind an expression. -/
theorem moreCalls_get {dot name : Token} {object v : Expr Unit} {r' : List Token}
    (hd : dot.kind = .symbol .dot) (hn : name.kind = .identifier)
    (hm : (moreCalls final (.get object name.toName) r).Reads v r') :
    (moreCalls final object (dot :: name :: r)).Reads v r' := by
  unfold moreCalls
  rw [if_neg (by simp [Token.isSymbol, hd]), if_pos (Token.isSymbol_iff.2 hd)]
  exact reads_past.2 (reads_then (expectName_reads hn) fun _ => hm)

theorem argumentList_starts {args : List (Expr Unit)} (h : ArgumentList ts args) :
    Starts startsExpression ts := by
  cases h with
  | one h => exact expression_starts h
  | cons h _ _ => exact (expression_starts h).append _

mutual

theorem expression_reads {ts : List Token} {e : Expr Unit} : Expression ts e →
    ∀ r, StopsAt expressionSymbols r → (expression final (ts ++ r)).Reads e r
  | @Expression.assign name equal ts value hn he hv, r, hr => by
    have hcall : (call final ([name] ++ equal :: (ts ++ r))).Reads (.variable () name.toName)
        (equal :: (ts ++ r)) := by
      unfold call
      exact reads_then (atom_reads (.variable hn) _) fun _ =>
        moreCalls_stops (stopsAt_cons he (by decide))
    exact expression_of_target hcall ⟨_, [], rfl, atom_starts (.variable hn)⟩ he
      (expression_reads hv r hr) rfl
  | @Expression.set ts us dot name equal object value hc hd hn he hv, r, hr => by
    have hcall := call_reads hc (dot :: name :: equal :: (us ++ r)) _ _
      (moreCalls_get hd hn (moreCalls_stops (stopsAt_cons he (by decide))))
    have htarget : (expression final ((ts ++ [dot, name]) ++ equal :: (us ++ r))).Reads
        (.set object name.toName value) r :=
      expression_of_target (by rw [List.append_assoc]; exact hcall) ((call_starts hc).append _) he
        (expression_reads hv r hr) rfl
    rw [List.append_assoc] at htarget ⊢
    exact htarget
  | .operators h, r, hr => by
    unfold expression
    exact reads_then (operators_reads h r _ _ (hr.mono (by decide))
      (moreOperands_stops (hr.mono (by decide)))) fun _ => assignment_stops (hr.mono (by decide))
termination_by structural h => h

theorem operators_reads {level : Level} {ts : List Token} {e : Expr Unit} : Operators level ts e →
    ∀ r v r', StopsAt level.inner r → (moreOperands final level e r).Reads v r' →
      (operators final level (ts ++ r)).Reads v r'
  | .operand h, r, _, _, hr, hm => by
    unfold operators
    exact reads_then (operand_reads h r hr) fun _ => hm
  | .join hl ho hright, r, _, _, hr, hm => by
    rw [List.append_assoc]
    refine operators_reads hl _ _ _ (Level.stopsAt_inner ho) ?_
    rw [List.cons_append]
    unfold moreOperands
    rw [if_pos ho]
    exact reads_past.2 (reads_then (operand_reads hright r hr) fun _ => hm)
termination_by structural h => h

theorem operand_reads {level : Level} {ts : List Token} {e : Expr Unit} : Operand level ts e →
    ∀ r, StopsAt level.inner r → (operand final level (ts ++ r)).Reads e r
  | .or h, r, hr => by
    unfold operand
    exact operators_reads h r _ _ (hr.mono (by decide)) (moreOperands_stops (hr.mono (by decide)))
  | .and h, r, hr => by
    unfold operand
    exact operators_reads h r _ _ (hr.mono (by decide)) (moreOperands_stops (hr.mono (by decide)))
  | .equality h, r, hr => by
    unfold operand
    exact operators_reads h r _ _ (hr.mono (by decide)) (moreOperands_stops (hr.mono (by decide)))
  | .comparison h, r, hr => by
    unfold operand
    exact operators_reads h r _ _ (hr.mono (by decide)) (moreOperands_stops (hr.mono (by decide)))
  | .term h, r, hr => by
    unfold operand
    exact operators_reads h r _ _ (hr.mono (by decide)) (moreOperands_stops (hr.mono (by decide)))
  | .factor h, r, hr => by
    unfold operand
    exact unary_reads h r (hr.mono (by decide))
termination_by structural h => h

theorem unary_reads {ts : List Token} {e : Expr Unit} : Unary ts e →
    ∀ r, StopsAt callSymbols r → (unary final (ts ++ r)).Reads e r
  | .before ho h, r, hr => by
    rw [List.cons_append]
    unfold unary
    rw [if_pos ho]
    exact reads_past.2 (reads_map.2 ⟨_, unary_reads h r hr, rfl⟩)
  | @Unary.behind ts operator e h ho, r, hr => by
    rw [List.append_assoc, List.singleton_append]
    obtain ⟨symbol, hs, hsym⟩ := List.any_eq_true.1 ho
    have hstop : StopsAt [.leftParen, .dot] (operator :: r) := by
      refine stopsAt_cons (Token.isSymbol_iff.1 hsym) ?_
      clear hsym hr h ho
      revert symbol
      decide
    have hcall := call_reads h _ _ _ (moreCalls_stops hstop)
    obtain ⟨t, rest, ht, hstart⟩ := (call_starts h).append (operator :: r)
    rw [ht] at hcall ⊢
    unfold unary
    rw [if_neg (by rw [not_prefix_of_startsPrimary hstart]; simp)]
    unfold suffixed
    refine reads_then hcall fun _ => ?_
    rw [suffix, if_pos ho]
    exact reads_one.2 ⟨rfl, rfl⟩
  | .call h, r, hr =>
    unary_of_call (call_reads h r _ _ (moreCalls_stops (hr.mono (by decide))))
      ((call_starts h).append r) (hr.mono (by decide))
termination_by structural h => h

theorem call_reads {ts : List Token} {e : Expr Unit} : Call ts e →
    ∀ r v r', (moreCalls final e r).Reads v r' → (call final (ts ++ r)).Reads v r'
  | .primary h, r, _, _, hm => by
    unfold call
    exact reads_then (primary_reads h r) fun _ => hm
  | .apply hc ho ha hlen hclose, r, _, _, hm => by
    rw [List.append_assoc, List.cons_append, List.append_assoc, List.singleton_append]
    refine call_reads hc _ _ _ ?_
    unfold moreCalls
    rw [if_pos (Token.isSymbol_iff.2 ho)]
    exact reads_past.2 (reads_then (arguments_reads ha _ r hclose hlen) fun _ => hm)
  | .get hc hd hn, r, _, _, hm => by
    rw [List.append_assoc]
    exact call_reads hc _ _ _ (moreCalls_get hd hn hm)
termination_by structural h => h

theorem arguments_reads {ts : List Token} {args : List (Expr Unit)} : Arguments ts args →
    ∀ closing r, closing.kind = .symbol .rightParen → args.length ≤ maxArity →
      (arguments final (ts ++ closing :: r)).Reads (args, closing.line) r
  | .none, closing, r, hclose, _ => by
    rw [List.nil_append]
    unfold arguments
    rw [if_pos (Token.isSymbol_iff.2 hclose)]
    exact reads_one.2 ⟨rfl, rfl⟩
  | .some h, closing, r, hclose, hlen => by
    have hlist := argumentList_reads h 0 closing r hclose (by omega)
    obtain ⟨t, rest, ht, hstart⟩ := (argumentList_starts h).append (closing :: r)
    rw [ht] at hlist ⊢
    unfold arguments
    rw [if_neg fun hp => not_starts hstart rfl (Token.isSymbol_iff.1 hp)]
    exact hlist
termination_by structural h => h

theorem argumentList_reads {ts : List Token} {args : List (Expr Unit)} : ArgumentList ts args →
    ∀ count closing r, closing.kind = .symbol .rightParen → count + args.length ≤ maxArity →
      (argumentList final count (ts ++ closing :: r)).Reads (args, closing.line) r
  | .one h, count, closing, r, hclose, hlen => by
    simp only [List.length_cons, List.length_nil] at hlen
    unfold argumentList
    rw [if_neg (by omega)]
    refine reads_then (expression_reads h _ (stopsAt_cons hclose (by decide))) fun _ => ?_
    refine reads_map.2 ⟨([], closing.line), ?_, rfl⟩
    unfold moreArguments
    rw [if_neg (by simp [Token.isSymbol, hclose]), if_pos (Token.isSymbol_iff.2 hclose)]
    exact reads_one.2 ⟨rfl, rfl⟩
  | .cons h hcomma hl, count, closing, r, hclose, hlen => by
    simp only [List.length_cons] at hlen
    rw [List.append_assoc, List.cons_append]
    unfold argumentList
    rw [if_neg (by omega)]
    refine reads_then (expression_reads h _ (stopsAt_cons hcomma (by decide))) fun _ => ?_
    refine reads_map.2 ⟨(_, closing.line), ?_, rfl⟩
    unfold moreArguments
    rw [if_pos (Token.isSymbol_iff.2 hcomma)]
    exact reads_past.2 (argumentList_reads hl (count + 1) closing r hclose (by omega))
termination_by structural h => h

theorem primary_reads {ts : List Token} {e : Expr Unit} : Primary ts e →
    ∀ r, (primary final (ts ++ r)).Reads e r
  | .atom h, r => atom_reads h r
  | .super hk hd hm, r => by
    simp only [List.cons_append, List.nil_append]
    unfold primary
    simp only [hk]
    refine reads_past.2 ?_
    unfold superAccess
    exact reads_then (expectSymbol_reads hd) fun _ => reads_map.2 ⟨_, expectName_reads hm, rfl⟩
  | .grouping ho h hc, r => by
    rw [List.cons_append, List.append_assoc, List.singleton_append]
    unfold primary
    simp only [ho]
    refine reads_past.2 (reads_then (expression_reads h _ (stopsAt_cons hc (by decide))) fun _ => ?_)
    exact reads_map.2 ⟨_, expectSymbol_reads hc, rfl⟩
termination_by structural h => h

end

/-! ## Variables, parameters and headers -/

theorem typeName_reads {v : Option Token} (h : TypeName ts v) (hr : StopsAt [.colon] r) :
    (typeName? final (ts ++ r)).Reads v r := by
  cases h with
  | none =>
    cases r with
    | nil => exact reads_done.2 ⟨rfl, rfl⟩
    | cons t rest =>
      rw [List.nil_append, typeName?, if_neg (by rw [hr.not_isSymbol (by decide)]; simp)]
      exact reads_done.2 ⟨rfl, rfl⟩
  | some hk hn =>
    rw [List.cons_append, List.cons_append, List.nil_append, typeName?,
      if_pos (Token.isSymbol_iff.2 hk)]
    exact reads_past.2 (reads_map.2 ⟨_, reads_expect.2 ⟨rfl, hn⟩, rfl⟩)

theorem initializer_reads {v : Option (Expr Unit)} (h : Initializer ts v)
    (hr : StopsAt expressionSymbols r) : (initializer? final (ts ++ r)).Reads v r := by
  cases h with
  | none =>
    cases r with
    | nil => exact reads_done.2 ⟨rfl, rfl⟩
    | cons t rest =>
      rw [List.nil_append, initializer?, if_neg (by rw [hr.not_isSymbol (by decide)]; simp)]
      exact reads_done.2 ⟨rfl, rfl⟩
  | some hk he =>
    rw [List.cons_append, initializer?, if_pos (Token.isSymbol_iff.2 hk)]
    exact reads_past.2 (reads_map.2 ⟨_, expression_reads he r hr, rfl⟩)

/-- No type and no initial value starts with a semicolon. -/
theorem initializer_stops {v : Option (Expr Unit)} {semicolon : Token} (h : Initializer ts v)
    (hs : semicolon.kind = .symbol .semicolon) : StopsAt [.colon] (ts ++ semicolon :: r) := by
  cases h with
  | none => exact stopsAt_cons hs (by decide)
  | some hk _ => exact stopsAt_cons hk (by decide)

theorem variable_reads {d : VarDecl Unit} (h : Variable ts d) (r : List Token) :
    (varDeclaration final (ts ++ r)).Reads d r := by
  cases h with
  | mk hn ht hi hs =>
    rw [List.cons_append, List.append_assoc, List.append_assoc, List.singleton_append]
    unfold varDeclaration
    refine reads_then (expectName_reads hn) fun _ => ?_
    refine reads_then (typeName_reads ht (initializer_stops hi hs)) fun _ => ?_
    refine reads_then (initializer_reads hi (stopsAt_cons hs (by decide))) fun _ => ?_
    exact reads_map.2 ⟨_, expectSymbol_reads hs, rfl⟩

theorem parameter_reads {p : Param} (h : Parameter ts p) (r : List Token) :
    (parameter final (ts ++ r)).Reads p r := by
  cases h with
  | mk hn hc ht =>
    simp only [List.cons_append, List.nil_append]
    unfold parameter
    refine reads_then (expectName_reads hn) fun _ => ?_
    refine reads_then (expectSymbol_reads hc) fun _ => ?_
    exact reads_map.2 ⟨_, reads_expect.2 ⟨rfl, ht⟩, rfl⟩

theorem parameterList_reads {params : List Param} {closing : Token} (h : ParameterList ts params)
    (hc : closing.kind = .symbol .rightParen) (r : List Token) (count : Nat)
    (hlen : count + params.length ≤ maxArity) :
    (parameterList final count (ts ++ closing :: r)).Reads params r := by
  induction h generalizing count with
  | one hp =>
    simp only [List.length_cons, List.length_nil] at hlen
    unfold parameterList
    rw [if_neg (by omega)]
    refine reads_then (parameter_reads hp _) fun _ => ?_
    simp only [Token.isSymbol, hc]
    exact reads_one.2 ⟨rfl, rfl⟩
  | cons hp hcomma _ ih =>
    simp only [List.length_cons] at hlen
    rw [List.append_assoc, List.cons_append]
    unfold parameterList
    rw [if_neg (by omega)]
    refine reads_then (parameter_reads hp _) fun _ => ?_
    dsimp only
    rw [if_pos (Token.isSymbol_iff.2 hcomma)]
    exact reads_past.2 (reads_map.2 ⟨_, ih (count + 1) (by omega), rfl⟩)

theorem parameterList_starts {params : List Param} (h : ParameterList ts params) :
    Starts (·.kind = .identifier) ts := by
  cases h with
  | one h =>
    cases h with
    | mk hn _ _ => exact ⟨_, _, rfl, decide_eq_true hn⟩
  | cons h _ _ =>
    cases h with
    | mk hn _ _ => exact ⟨_, _, rfl, decide_eq_true hn⟩

theorem parameters_reads {params : List Param} {closing : Token} (h : Parameters ts params)
    (hlen : params.length ≤ maxArity) (hc : closing.kind = .symbol .rightParen) (r : List Token) :
    (parameters final (ts ++ closing :: r)).Reads params r := by
  cases h with
  | none =>
    rw [List.nil_append, parameters, if_pos (Token.isSymbol_iff.2 hc)]
    exact reads_one.2 ⟨rfl, rfl⟩
  | some h =>
    have hlist : (parameterList final 0 _).Reads params r :=
      parameterList_reads h hc r 0 (by omega)
    obtain ⟨t, rest, ht, hn⟩ := (parameterList_starts h).append (closing :: r)
    rw [ht] at hlist ⊢
    rw [parameters, if_neg (by simp [Token.isSymbol, of_decide_eq_true hn])]
    exact hlist

theorem header_reads {v : Name × List Param × Option Token} {opening : Token} (h : Header ts v)
    (ho : opening.kind = .symbol .leftBrace) (kind : RoutineKind) (r : List Token) :
    (header final kind (ts ++ opening :: r)).Reads v r := by
  cases h with
  | mk hn hp hps hlen hc ht =>
    rw [List.cons_append, List.cons_append, List.append_assoc, List.cons_append]
    unfold header
    refine reads_then (expectName_reads hn) fun _ => ?_
    refine reads_then (expectSymbol_reads hp) fun _ => ?_
    refine reads_then (parameters_reads hps hlen hc _) fun _ => ?_
    refine reads_then (typeName_reads ht (stopsAt_cons ho (by decide))) fun _ => ?_
    exact reads_map.2 ⟨_, expectSymbol_reads ho, rfl⟩

theorem superclass_reads {v : Option (SuperclassRef Unit)} {opening : Token} (h : Superclass ts v)
    (ho : opening.kind = .symbol .leftBrace) (r : List Token) :
    (superclass? final (ts ++ opening :: r)).Reads v (opening :: r) := by
  cases h with
  | none =>
    rw [List.nil_append, superclass?, if_neg (by simp [Token.isSymbol, ho])]
    exact reads_done.2 ⟨rfl, rfl⟩
  | some hl hn =>
    rw [List.cons_append, List.cons_append, List.nil_append, superclass?,
      if_pos (Token.isSymbol_iff.2 hl)]
    exact reads_past.2 (reads_map.2 ⟨_, expectName_reads hn, rfl⟩)

theorem classHeader_reads {v : Option (SuperclassRef Unit)} {name opening : Token}
    (hn : name.kind = .identifier) (h : Superclass ts v) (ho : opening.kind = .symbol .leftBrace)
    (r : List Token) :
    (classHeader final (name :: (ts ++ opening :: r))).Reads (name.toName, v) r := by
  unfold classHeader
  refine reads_then (expectName_reads hn) fun _ => ?_
  refine reads_then (superclass_reads h ho r) fun _ => ?_
  exact reads_map.2 ⟨_, expectSymbol_reads ho, rfl⟩

/-! ## Simple statements -/

theorem expressionStatement_reads {semicolon : Token} (h : Expression ts e)
    (hs : semicolon.kind = .symbol .semicolon) (r : List Token) :
    (expressionStatement final (ts ++ semicolon :: r)).Reads (.expression e) r := by
  unfold expressionStatement
  refine reads_then (expression_reads h _ (stopsAt_cons hs (by decide))) fun _ => ?_
  exact reads_map.2 ⟨_, expectSymbol_reads hs, rfl⟩

theorem printStatement_reads {semicolon : Token} (h : Expression ts e)
    (hs : semicolon.kind = .symbol .semicolon) (r : List Token) :
    (printStatement final (ts ++ semicolon :: r)).Reads (.print e) r := by
  unfold printStatement
  refine reads_then (expression_reads h _ (stopsAt_cons hs (by decide))) fun _ => ?_
  exact reads_map.2 ⟨_, expectSymbol_reads hs, rfl⟩

/-- The closing symbol neither starts an expression nor continues one. -/
theorem expressionUntil_reads {close : Symbol} {cause : SyntaxCause} {v : Option (Expr Unit)}
    {closing : Token} (h : Option? ts v) (hc : closing.kind = .symbol close)
    (hstart : startsExpression ⟨.symbol close, "", 0⟩ = false) (hstop : close ∉ expressionSymbols)
    (r : List Token) : (expressionUntil final close cause (ts ++ closing :: r)).Reads v r := by
  cases h with
  | none =>
    rw [List.nil_append, expressionUntil, if_pos (Token.isSymbol_iff.2 hc)]
    exact reads_one.2 ⟨rfl, rfl⟩
  | some h =>
    have he : (expression final _).Reads _ (closing :: r) :=
      expression_reads h (closing :: r) (stopsAt_cons hc hstop)
    obtain ⟨t, rest, ht, hs⟩ := (expression_starts h).append (closing :: r)
    rw [ht] at he ⊢
    rw [expressionUntil, if_neg fun h => not_starts hs hstart (Token.isSymbol_iff.1 h)]
    exact reads_then he fun _ => reads_map.2 ⟨_, expectSymbol_reads hc, rfl⟩

theorem condition_reads {opening closing : SyntaxCause} (h : Condition ts e) (r : List Token) :
    (condition final opening closing (ts ++ r)).Reads e r := by
  cases h with
  | mk ho he hc =>
    rw [List.cons_append, List.append_assoc, List.singleton_append]
    unfold condition
    refine reads_then (expectSymbol_reads ho) fun _ => ?_
    refine reads_then (expression_reads he _ (stopsAt_cons hc (by decide))) fun _ => ?_
    exact reads_map.2 ⟨_, expectSymbol_reads hc, rfl⟩

theorem firstClause_reads {v : Option (Stmt Unit)} (h : FirstClause ts v) (r : List Token) :
    (forInitializer final (ts ++ r)).Reads v r := by
  cases h with
  | none hs =>
    rw [List.cons_append, List.nil_append, forInitializer, if_pos (Token.isSymbol_iff.2 hs)]
    exact reads_one.2 ⟨rfl, rfl⟩
  | var hk hd =>
    rw [List.cons_append, forInitializer, if_neg (by simp [Token.isSymbol, hk]),
      if_pos (Token.isSymbol_iff.2 hk)]
    exact reads_past.2 (reads_map.2 ⟨_, variable_reads hd r, rfl⟩)
  | @expression ts semicolon _ he hs =>
    rw [List.append_assoc, List.singleton_append]
    have hexpression : (expressionStatement final _).Reads _ r :=
      expressionStatement_reads he hs r
    obtain ⟨t, rest, ht, hstart⟩ := (expression_starts he).append (semicolon :: r)
    rw [ht] at hexpression ⊢
    rw [forInitializer, if_neg fun h => not_starts hstart rfl (Token.isSymbol_iff.1 h),
      if_neg fun h => not_starts hstart rfl (Token.isSymbol_iff.1 h)]
    exact reads_map.2 ⟨_, hexpression, rfl⟩

theorem clauses_reads {v : ForClauses} (h : Clauses ts v) (r : List Token) :
    (forClauses final (ts ++ r)).Reads v r := by
  cases h with
  | mk ho hf hc hs hi hclose =>
    rw [List.cons_append, List.append_assoc, List.append_assoc, List.cons_append,
      List.append_assoc, List.singleton_append]
    unfold forClauses
    refine reads_then (expectSymbol_reads ho) fun _ => ?_
    refine reads_then (firstClause_reads hf _) fun _ => ?_
    refine reads_then (expressionUntil_reads hc hs rfl (by decide) _) fun _ => ?_
    exact reads_map.2 ⟨_, expressionUntil_reads hi hclose rfl (by decide) r, rfl⟩

end Grammar

end ClassScript
