import ClassScript.Proofs.ProgramDescent

/-!
# Places of syntax errors

Two runs of a rule on the same tokens, with one token or another for the end of the source, have twin
outcomes (`Outcome.Twins`): the same value and the same tokens left, or errors of the same cause at the
same place. In the first run every error names the token at its place, and errors from which the rule
recovers come in the order of the tokens (`Reply.Twins`).
-/

set_option autoImplicit false

namespace ClassScript

/-- With `m` tokens left one is further on than with `n`, or both are at the end. -/
def Further (n m : Nat) : Prop :=
  m < n ∨ n = 0 ∧ m = 0

theorem Further.mono {n m k : Nat} (h : Further n m) (hk : k ≤ m) : Further n k := by
  obtain h | ⟨hn, hm⟩ := h
  · exact .inl (by omega)
  · exact .inr ⟨hn, by omega⟩

variable {final final' t : Token} {s r rest used : List Token} {α β : Type} {a b : Bool}

namespace SyntaxError

/-- The cause of an error and its place. -/
def mark (e : SyntaxError) : SyntaxCause × Nat :=
  (e.cause, e.left)

/-- The error names the token at its place, or `final` at the end. -/
structure Names (final : Token) (s : List Token) (e : SyntaxError) : Prop where
  inside : e.left ≤ s.length
  token : e.token = (s.drop (s.length - e.left)).headD final

theorem Names.append {e : SyntaxError} (h : e.Names final r) (used : List Token) :
    e.Names final (used ++ r) where
  inside := by
    rw [List.length_append]
    exact Nat.le_add_left_of_le h.inside
  token := by
    have hinside := h.inside
    have hlength : used.length + r.length - e.left = used.length + (r.length - e.left) := by omega
    rw [h.token, List.length_append, hlength, ← List.drop_drop, List.drop_left]

end SyntaxError

open SyntaxError (Names mark)

/-! ## Outcomes -/

/-- The number of tokens left where the rule stopped: behind its value or at its error. -/
def Outcome.stop : Outcome a α s → Nat
  | .ok _ r _ => r.length
  | .fail e _ _ => e.left

/-- Both runs have the same value and leave the same tokens, or fail with twin errors. -/
inductive Outcome.Twins (final : Token) : Outcome a α s → Outcome a α s → Prop
  | ok {v : α} {r : List Token} (used : List Token) (h : r.length + a.toNat ≤ s.length) :
    s = used ++ r → Twins final (.ok v r h) (.ok v r h)
  | fail {e e' : SyntaxError} {r : List Token} (used : List Token) (h : r.length ≤ s.length) :
    s = used ++ r → r.length ≤ e.left → e.Names final s → e.mark = e'.mark →
    Twins final (.fail e r h) (.fail e' r h)

namespace Outcome.Twins

theorem stop_le {x y : Outcome a α s} (h : x.Twins final y) : x.stop ≤ s.length := by
  cases h with
  | ok used h hs => exact Nat.le_of_add_right_le h
  | fail used h hs hle hnames hmark => exact hnames.inside

theorem value_eq {v v' : α} {r r' : List Token} {h : r.length + a.toNat ≤ s.length}
    {h' : r'.length + a.toNat ≤ s.length}
    (ht : (Outcome.ok v r h : Outcome a α s).Twins final (.ok v' r' h')) : v = v' := by
  cases ht
  rfl

theorem after {x y : Outcome b β r} (h : x.Twins final y) (hs : s = used ++ r)
    (hle : r.length + a.toNat ≤ s.length) :
    (x.after hle : Outcome (a || b) β s).Twins final (y.after hle) := by
  cases h with
  | ok used' h' hr => exact .ok (used ++ used') _ (by rw [hs, hr, List.append_assoc])
  | fail used' h' hr hle' hnames hmark =>
    subst hs
    exact .fail (used ++ used') _ (by rw [hr, List.append_assoc]) hle' (hnames.append used) hmark

theorem andThen {x y : Outcome a α s}
    {next next' : α → (r : List Token) → r.length + a.toNat ≤ s.length → Outcome b β r}
    (h : x.Twins final y) (hnext : ∀ v r h, (next v r h).Twins final (next' v r h)) :
    (x.andThen next).Twins final (y.andThen next') := by
  cases h with
  | ok used h hs => exact (hnext _ _ h).after hs h
  | fail used h hs hle hnames hmark => exact .fail used h hs hle hnames hmark

theorem map {x y : Outcome a α s} (h : x.Twins final y) (f : α → β) :
    (x.map f).Twins final (y.map f) := by
  cases h with
  | ok used h hs => exact .ok used h hs
  | fail used h hs hle hnames hmark => exact .fail used h hs hle hnames hmark

theorem past {x y : Outcome a α rest} (h : x.Twins final y) :
    (x.past : Outcome b α (t :: rest)).Twins final y.past := by
  cases h with
  | ok used h hs => exact .ok (t :: used) _ (congrArg (t :: ·) hs)
  | fail used h hs hle hnames hmark =>
    exact .fail (t :: used) _ (congrArg (t :: ·) hs) hle (hnames.append [t]) hmark

theorem done (v : α) : (Outcome.done v s).Twins final (Outcome.done v s) :=
  .ok [] _ rfl

theorem one (v : α) : (Outcome.one v t rest : Outcome b α (t :: rest)).Twins final (.one v t rest) :=
  .ok [t] _ rfl

theorem reject (cause : SyntaxCause) :
    (Grammar.reject final cause s : Outcome true α s).Twins final (Grammar.reject final' cause s) :=
  .fail [] _ rfl (Nat.le_refl _) ⟨Nat.le_refl _, by simp [Grammar.errorAt]⟩ rfl

end Outcome.Twins

/-! ## Replies -/

/-- Both runs recover from twin errors, which come in order and before the place where the rule
stopped, and have twin outcomes. -/
structure Reply.Twins (final : Token) (x y : Reply a α s) : Prop where
  marks : x.log.map mark = y.log.map mark
  names : ∀ e ∈ x.log, e.Names final s
  ordered : x.log.Pairwise fun e e' => Further e.left e'.left
  before : ∀ e ∈ x.log, Further e.left x.outcome.stop
  outcome : x.outcome.Twins final y.outcome

namespace Reply.Twins

theorem quiet {x y : Outcome a α s} (h : x.Twins final y) :
    (Reply.quiet x).Twins final (Reply.quiet y) :=
  ⟨rfl, fun _ he => absurd he List.not_mem_nil, .nil, fun _ he => absurd he List.not_mem_nil, h⟩

theorem andThen {x y : Reply a α s}
    {next next' : α → (r : List Token) → r.length + a.toNat ≤ s.length → Reply b β r}
    (h : x.Twins final y) (hnext : ∀ v r h, (next v r h).Twins final (next' v r h)) :
    (x.andThen next).Twins final (y.andThen next') := by
  obtain ⟨log, o⟩ := x
  obtain ⟨log', o'⟩ := y
  obtain ⟨hmarks, hnames, hordered, hbefore, ho⟩ := h
  cases ho with
  | fail used h hs hle hname hmark => exact ⟨hmarks, hnames, hordered, hbefore, .fail used h hs hle hname hmark⟩
  | @ok v r used h hs =>
    have hz := hnext v r h
    show Twins final (⟨log ++ (next v r h).log, (next v r h).outcome.after h⟩ : Reply (a || b) β s)
      ⟨log' ++ (next' v r h).log, (next' v r h).outcome.after h⟩
    generalize next v r h = z at hz
    generalize next' v r h = z' at hz
    obtain ⟨hmarks', hnames', hordered', hbefore', ho'⟩ := hz
    have hstop : (z.outcome.after h : Outcome (a || b) β s).stop = z.outcome.stop := by
      cases z.outcome <;> rfl
    refine ⟨?_, ?_, List.pairwise_append.2 ⟨hordered, hordered', fun e he e' he' =>
      (hbefore e he).mono (hnames' e' he').inside⟩, ?_, ho'.after hs h⟩
    · simp only [List.map_append, hmarks, hmarks']
    · intro e he
      obtain hlog | hlog := List.mem_append.1 he
      · exact hnames e hlog
      · rw [hs]
        exact (hnames' e hlog).append used
    · intro e he
      rw [hstop]
      obtain he | he := List.mem_append.1 he
      · exact (hbefore e he).mono ho'.stop_le
      · exact hbefore' e he

theorem map {x y : Reply a α s} (h : x.Twins final y) (f : α → β) :
    (x.map f).Twins final (y.map f) := by
  obtain ⟨log, o⟩ := x
  obtain ⟨log', o'⟩ := y
  obtain ⟨hmarks, hnames, hordered, hbefore, ho⟩ := h
  refine ⟨hmarks, hnames, hordered, ?_, ho.map f⟩
  cases o <;> exact hbefore

theorem past {x y : Reply a α rest} (h : x.Twins final y) :
    (x.past : Reply b α (t :: rest)).Twins final y.past := by
  obtain ⟨log, o⟩ := x
  obtain ⟨log', o'⟩ := y
  obtain ⟨hmarks, hnames, hordered, hbefore, ho⟩ := h
  refine ⟨hmarks, fun e he => (hnames e he).append [t], hordered, ?_, ho.past⟩
  cases o <;> exact hbefore

theorem lax {x y : Reply a α s} (h : x.Twins final y) : x.lax.Twins final y.lax := by
  obtain ⟨log, o⟩ := x
  obtain ⟨log', o'⟩ := y
  obtain ⟨hmarks, hnames, hordered, hbefore, ho⟩ := h
  cases ho with
  | ok used h hs => exact ⟨hmarks, hnames, hordered, hbefore, .ok used _ hs⟩
  | fail used h hs hle hname hmark =>
    exact ⟨hmarks, hnames, hordered, hbefore, .fail used h hs hle hname hmark⟩

end Reply.Twins

/-! ## Rules -/

namespace Grammar

theorem expect_twins (test : Token → Bool) (cause : SyntaxCause) (s : List Token) :
    (expect final test cause s).Twins final (expect final' test cause s) := by
  cases s with
  | nil => exact .reject cause
  | cons t rest =>
    rw [expect, expect]
    split
    · exact .one t
    · exact .reject cause

theorem expectSymbol_twins (symbol : Symbol) (cause : SyntaxCause) (s : List Token) :
    (expectSymbol final symbol cause s).Twins final (expectSymbol final' symbol cause s) :=
  expect_twins _ cause s

theorem expectName_twins (cause : SyntaxCause) (s : List Token) :
    (expectName final cause s).Twins final (expectName final' cause s) :=
  (expect_twins _ cause s).map _

/-! ## Expressions -/

theorem suffix_twins (e : Expr Unit) (s : List Token) : (suffix e s).Twins final (suffix e s) := by
  cases s with
  | nil => exact .done e
  | cons t rest =>
    rw [suffix]
    split
    · exact .one _
    · exact .done e

theorem superAccess_twins (keyword : Name) (s : List Token) :
    (superAccess final keyword s).Twins final (superAccess final' keyword s) :=
  (expectSymbol_twins _ _ s).andThen fun _ r _ => (expectName_twins _ r).map _

/-- An invalid target is named by the equals sign, which stands before the value. -/
theorem assigned_twins (target : Expr Unit) {x y : Outcome true (Expr Unit) rest}
    (h : x.Twins final y) :
    let assign (o : Outcome true (Expr Unit) rest) : Outcome false (Expr Unit) (t :: rest) :=
      Outcome.past <| o.andThen fun value r _ =>
        match assignTo? target value with
        | some e => .done e r
        | none => .fail ⟨.invalidTarget, t, rest.length + 1⟩ r (Nat.le_refl _)
    (assign x).Twins final (assign y) := by
  intro assign
  cases h with
  | fail used h hs hle hnames hmark =>
    exact Outcome.Twins.past (.fail used h hs hle hnames hmark)
  | @ok value r used h hs =>
    simp only [assign, Outcome.andThen]
    cases assignTo? target value with
    | some e => exact .past (.ok used _ hs)
    | none =>
      exact .fail (t :: used) _ (congrArg (t :: ·) hs) (by simp at h ⊢; omega)
        ⟨Nat.le_refl _, by simp⟩ rfl

mutual

theorem expression_twins (s : List Token) :
    (expression final s).Twins final (expression final' s) := by
  unfold expression
  exact (operators_twins .or s).andThen fun target r _ => assignment_twins target r
termination_by 32 * s.length + 20
decreasing_by all_goals simp_all [Level.height] <;> omega

theorem assignment_twins (target : Expr Unit) (s : List Token) :
    (assignment final target s).Twins final (assignment final' target s) := by
  match s with
  | [] =>
    unfold assignment
    exact .done target
  | t :: rest =>
    unfold assignment
    split
    · exact assigned_twins target (expression_twins rest)
    · exact .done target
termination_by 32 * s.length

theorem operators_twins (level : Level) (s : List Token) :
    (operators final level s).Twins final (operators final' level s) := by
  unfold operators
  exact (operand_twins level s).andThen fun left r _ => moreOperands_twins level left r
termination_by 32 * s.length + 2 * level.height + 5

theorem moreOperands_twins (level : Level) (left : Expr Unit) (s : List Token) :
    (moreOperands final level left s).Twins final (moreOperands final' level left s) := by
  match s with
  | [] =>
    unfold moreOperands
    exact .done left
  | t :: rest =>
    unfold moreOperands
    split
    · exact .past ((operand_twins level rest).andThen fun right r _ =>
        moreOperands_twins level (level.combine left t right) r)
    · exact .done left
termination_by 32 * s.length
decreasing_by
  all_goals
    have := level.height_le
    simp only [List.length_cons, Bool.toNat_true] at *
    omega

theorem operand_twins (level : Level) (s : List Token) :
    (operand final level s).Twins final (operand final' level s) := by
  unfold operand
  cases level with
  | or => exact operators_twins .and s
  | and => exact operators_twins .equality s
  | equality => exact operators_twins .comparison s
  | comparison => exact operators_twins .term s
  | term => exact operators_twins .factor s
  | factor => exact unary_twins s
termination_by 32 * s.length + 2 * level.height + 4
decreasing_by all_goals simp [Level.height]

theorem unary_twins (s : List Token) : (unary final s).Twins final (unary final' s) := by
  match s with
  | [] =>
    unfold unary
    exact suffixed_twins []
  | t :: rest =>
    unfold unary
    split
    · exact .past ((unary_twins rest).map _)
    · exact suffixed_twins (t :: rest)
termination_by 32 * s.length + 5

theorem suffixed_twins (s : List Token) : (suffixed final s).Twins final (suffixed final' s) := by
  unfold suffixed
  exact (call_twins s).andThen fun e r _ => suffix_twins e r
termination_by 32 * s.length + 4

theorem call_twins (s : List Token) : (call final s).Twins final (call final' s) := by
  unfold call
  exact (primary_twins s).andThen fun e r _ => moreCalls_twins e r
termination_by 32 * s.length + 3

theorem moreCalls_twins (e : Expr Unit) (s : List Token) :
    (moreCalls final e s).Twins final (moreCalls final' e s) := by
  match s with
  | [] =>
    unfold moreCalls
    exact .done e
  | t :: rest =>
    unfold moreCalls
    split
    · exact .past ((arguments_twins rest).andThen fun found r _ => moreCalls_twins _ r)
    split
    · exact .past ((expectName_twins _ rest).andThen fun name r _ => moreCalls_twins _ r)
    · exact .done e
termination_by 32 * s.length

theorem arguments_twins (s : List Token) : (arguments final s).Twins final (arguments final' s) := by
  match s with
  | [] =>
    unfold arguments
    exact argumentList_twins 0 []
  | t :: rest =>
    unfold arguments
    split
    · exact .one _
    · exact argumentList_twins 0 (t :: rest)
termination_by 32 * s.length + 22

theorem argumentList_twins (count : Nat) (s : List Token) :
    (argumentList final count s).Twins final (argumentList final' count s) := by
  unfold argumentList
  split
  · exact .reject _
  · exact (expression_twins s).andThen fun e r _ => (moreArguments_twins count r).map _
termination_by 32 * s.length + 21

theorem moreArguments_twins (count : Nat) (s : List Token) :
    (moreArguments final count s).Twins final (moreArguments final' count s) := by
  match s with
  | [] =>
    unfold moreArguments
    exact .reject _
  | t :: rest =>
    unfold moreArguments
    split
    · exact .past (argumentList_twins (count + 1) rest)
    split
    · exact .one _
    · exact .reject _
termination_by 32 * s.length

theorem primary_twins (s : List Token) : (primary final s).Twins final (primary final' s) := by
  match s with
  | [] =>
    unfold primary
    exact .reject _
  | t :: rest =>
    unfold primary
    split
    all_goals first | exact .one _ | skip
    · exact .past (superAccess_twins _ rest)
    · exact .past ((expression_twins rest).andThen fun e r _ => (expectSymbol_twins _ _ r).map _)
    · exact .reject _
termination_by 32 * s.length + 2

end

end Grammar

end ClassScript
