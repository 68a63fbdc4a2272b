import ClassScript.Proofs.ProgramDescent
import ClassScript.Proofs.Relabel
import Mathlib.Data.List.Perm.Subperm

/-!
# The labels that the parser draws

A parser with labels does what the parser without labels does, and in what it returns every label stands
at most once, among those that it has drawn meanwhile and those that it was given (`Parser.Draws`). A rule
that goes on with a value hands on the labels of this value; a rule that gives up a value, because a
variable becomes the target of an assignment or because an error drops a statement, loses labels, but
none is drawn again.
-/

set_option autoImplicit false

namespace ClassScript

/-! ## Labels -/

section

variable {ι : Type}

/-- The labels of an expression. -/
def Expr.labels (e : Expr ι) : List ι :=
  e.occurrences.map (·.id)

/-- The labels of the arguments of a call. -/
def Expr.labelsAll (es : List (Expr ι)) : List ι :=
  es.flatMap Expr.labels

/-- The labels of an expression that may be missing. -/
def Expr.labelsOption (e : Option (Expr ι)) : List ι :=
  e.toList.flatMap Expr.labels

theorem Expr.map_occurrencesAll (es : List (Expr ι)) :
    (Expr.occurrencesAll es).map (·.id) = Expr.labelsAll es := by
  induction es with
  | nil => rfl
  | cons e rest ih =>
    rw [Expr.occurrencesAll, List.map_append, ih]
    rfl

theorem Expr.labels_set (object value : Expr ι) (name : Name) :
    (Expr.set object name value).labels = object.labels ++ value.labels :=
  List.map_append

theorem Expr.labels_call (callee : Expr ι) (line : Nat) (arguments : List (Expr ι)) :
    (Expr.call callee line arguments).labels = callee.labels ++ Expr.labelsAll arguments := by
  rw [← Expr.map_occurrencesAll]
  exact List.map_append

theorem Expr.labels_combine (level : Grammar.Level) (left right : Expr ι) (operator : Token) :
    (level.combine left operator right).labels = left.labels ++ right.labels := by
  cases level <;> exact List.map_append

end

theorem subperm_of_count {l m : List NodeId} (h : ∀ i, l.count i ≤ m.count i) : l.Subperm m :=
  List.subperm_ext_iff.2 fun i _ => h i

/-- Later numbers of a range. -/
theorem range'_split {a b c : Nat} (hab : a ≤ b) (hbc : b ≤ c) :
    List.range' a (c - a) = List.range' a (b - a) ++ List.range' b (c - b) := by
  have hb : b = a + (b - a) := by omega
  have hc : c - a = (b - a) + (c - b) := by omega
  rw [hc, ← List.range'_append_1, ← hb]

namespace Parser

variable {ι α β γ δ : Type}

/-- The parser without its label. -/
def bare (p : Parser ι) : Parser :=
  ⟨p.tokens, p.current, p.errors, ()⟩

/-- The rule with labels does what the rule without labels does, and in its value no label stands more
often than among those `held` before and those drawn meanwhile. -/
def Draws (held : List NodeId) (plain : α → β) (labels : α → List NodeId) (x : Labeled NodeId α)
    (y : Rule β) : Prop :=
  ∀ p, match x p with
    | .ok v q => y p.bare = .ok (plain v) q.bare ∧ p.label ≤ q.label ∧
        (labels v).Subperm (held ++ List.range' p.label (q.label - p.label))
    | .error i q => y p.bare = .error i q.bare ∧ p.label ≤ q.label

/-- Both rules do the same, and the value has no labels. -/
abbrev Same (x : Labeled NodeId α) (y : Rule α) : Prop :=
  Draws [] (fun v => v) (fun _ => []) x y

namespace Draws

variable {held : List NodeId} {plain : α → β} {labels : α → List NodeId} {plain' : γ → δ}
  {labels' : γ → List NodeId} {x : Labeled NodeId α} {y : Rule β}

/-- Labels that the first rule is not given are kept for what comes then. -/
theorem bindWith {kept : List NodeId} {f : α → Labeled NodeId γ} {g : β → Rule δ}
    (hx : Draws held plain labels x y)
    (hf : ∀ v, Draws (labels v ++ kept) plain' labels' (f v) (g (plain v))) :
    Draws (held ++ kept) plain' labels' (x >>= f) (y >>= g) := by
  intro p
  have hp := hx p
  cases hr : x p with
  | error i q =>
    rw [hr] at hp
    rw [bind_of_error hr]
    exact ⟨bind_of_error hp.1, hp.2⟩
  | ok v q =>
    rw [hr] at hp
    obtain ⟨hy, hle, hv⟩ := hp
    rw [bind_of_ok hr, bind_of_ok hy]
    have hq := hf v q
    cases hs : f v q with
    | error i r =>
      rw [hs] at hq
      exact ⟨hq.1, Nat.le_trans hle hq.2⟩
    | ok w r =>
      rw [hs] at hq
      obtain ⟨hg, hle', hw⟩ := hq
      refine ⟨hg, Nat.le_trans hle hle', subperm_of_count fun i => ?_⟩
      have hcount := hw.count_le i
      have hcount' := hv.count_le i
      rw [range'_split hle hle']
      simp only [List.count_append] at hcount hcount' ⊢
      omega

theorem bind {f : α → Labeled NodeId γ} {g : β → Rule δ} (hx : Draws [] plain labels x y)
    (hf : ∀ v, Draws (labels v ++ held) plain' labels' (f v) (g (plain v))) :
    Draws held plain' labels' (x >>= f) (y >>= g) :=
  hx.bindWith hf

/-- What comes then is given the labels of the value only. -/
theorem andThen {f : α → Labeled NodeId γ} {g : β → Rule δ} (hx : Draws held plain labels x y)
    (hf : ∀ v, Draws (labels v) plain' labels' (f v) (g (plain v))) :
    Draws held plain' labels' (x >>= f) (y >>= g) := by
  rw [← List.append_nil held]
  refine hx.bindWith fun v => ?_
  rw [List.append_nil]
  exact hf v

theorem pure {v : α} {w : β} (hw : plain v = w) (hv : (labels v).Subperm held) :
    Draws held plain labels (Pure.pure v) (Pure.pure w) := by
  intro p
  refine ⟨congrArg (EStateM.Result.ok · p.bare) hw.symm, Nat.le_refl _, ?_⟩
  rw [Nat.sub_self, List.range'_zero, List.append_nil]
  exact hv

theorem mono {held' : List NodeId} (h : Draws held plain labels x y) (hle : held.Subperm held') :
    Draws held' plain labels x y := by
  intro p
  have hp := h p
  cases hr : x p with
  | error i q =>
    rw [hr] at hp
    exact hp
  | ok v q =>
    rw [hr] at hp
    exact ⟨hp.1, hp.2.1, hp.2.2.trans (List.Subperm.append hle (List.Subperm.refl _))⟩

theorem crash (c : Crash) : Draws held plain labels (crash c) (crash c) :=
  fun p => ⟨rfl, Nat.le_refl p.label⟩

theorem fault (e : SyntaxError) : Draws held plain labels (throw (.fault e)) (throw (.fault e)) :=
  fun p => ⟨rfl, Nat.le_refl p.label⟩

/-- Both rules go the same way. -/
theorem choose {test : Labeled NodeId Bool} {test' : Rule Bool} {x' : Labeled NodeId α} {y' : Rule β}
    (ht : Same test test') (hx : Draws held plain labels x y) (hx' : Draws held plain labels x' y') :
    Draws held plain labels (test >>= fun b => if b = true then x else x')
      (test' >>= fun b => if b = true then y else y') := by
  refine ht.bind fun b => ?_
  cases b with
  | true => exact hx
  | false => exact hx'

theorem ite {c : Prop} [Decidable c] {x' : Labeled NodeId α} {y' : Rule β}
    (hx : Draws held plain labels x y) (hx' : Draws held plain labels x' y') :
    Draws held plain labels (if c then x else x') (if c then y else y') := by
  split
  · exact hx
  · exact hx'

end Draws

theorem same_pure (v : α) : Same (pure v) (pure v) :=
  .pure rfl List.nil_subperm

/-! ## Tokens -/

theorem fresh_draws : Draws [] (fun _ => ()) (fun i => [i]) fresh (fresh : Rule Unit) := by
  intro p
  refine ⟨rfl, Nat.le_succ p.label, ?_⟩
  show [p.label].Subperm (List.range' p.label (p.label + 1 - p.label))
  rw [Nat.add_sub_cancel_left]
  exact List.Subperm.refl _

/-- A look at the parser without its label. -/
theorem get_bind_draws {held : List NodeId} {plain : α → β} {labels : α → List NodeId}
    {f : Parser NodeId → Labeled NodeId α} {g : Parser → Rule β}
    (h : ∀ p, Draws held plain labels (f p) (g p.bare)) :
    Draws held plain labels (get >>= f) (get >>= g) :=
  fun p => h p p

theorem tokenAt_of_none {p : Parser ι} {index : Nat} (h : p.tokens[index]? = none) :
    tokenAt index p = .error (.crash .outOfRange) p := by
  rw [tokenAt, get_bind, h]
  rfl

theorem tokenAt_same (index : Nat) : Same (tokenAt index) (tokenAt index) := by
  intro p
  cases h : p.tokens[index]? with
  | some t =>
    rw [tokenAt_of_get h]
    exact ⟨tokenAt_of_get (p := p.bare) h, Nat.le_refl _, List.nil_subperm⟩
  | none =>
    rw [tokenAt_of_none h]
    exact ⟨tokenAt_of_none (p := p.bare) h, Nat.le_refl _⟩

theorem peek_same : Same peek peek :=
  get_bind_draws fun _ => tokenAt_same _

theorem previous_same : Same previous previous :=
  get_bind_draws fun _ => tokenAt_same _

theorem isAtEnd_same : Same isAtEnd isAtEnd :=
  get_bind_draws fun _ => .ite (same_pure true) (peek_same.bind fun _ => same_pure _)

theorem check_same (kind : TokenKind) : Same (check kind) (check kind) :=
  isAtEnd_same.choose (same_pure false) (peek_same.bind fun _ => same_pure _)

theorem anyM_same {f : Symbol → Labeled NodeId Bool} {g : Symbol → Rule Bool}
    (h : ∀ s, Same (f s) (g s)) (symbols : List Symbol) : Same (symbols.anyM f) (symbols.anyM g) := by
  induction symbols with
  | nil => exact same_pure false
  | cons s rest ih =>
    rw [List.anyM, List.anyM]
    refine (h s).bind fun b => ?_
    cases b with
    | true => exact same_pure true
    | false => exact ih

theorem checkAny_same (symbols : List Symbol) : Same (checkAny symbols) (checkAny symbols) :=
  anyM_same (fun _ => check_same _) symbols

theorem advance_same : Same advance advance := by
  refine isAtEnd_same.bind fun b => ?_
  cases b with
  | true => exact previous_same
  | false =>
    have hmove : Same (modify fun p => { p with current := p.current + 1 })
        (modify fun p => { p with current := p.current + 1 }) :=
      fun p => ⟨rfl, Nat.le_refl p.label, List.nil_subperm⟩
    exact hmove.bind fun _ => previous_same

theorem accept_same (kind : TokenKind) : Same (accept kind) (accept kind) :=
  (check_same kind).choose (advance_same.bind fun _ => same_pure true) (same_pure false)

theorem acceptAny_same (symbols : List Symbol) : Same (acceptAny symbols) (acceptAny symbols) :=
  anyM_same (fun _ => accept_same _) symbols

theorem fail_draws {held : List NodeId} {plain : α → β} {labels : α → List NodeId}
    (cause : SyntaxCause) : Draws held plain labels (fail cause) (fail cause) :=
  get_bind_draws fun _ => peek_same.bind fun _ => .fault _

theorem consume_same (kind : TokenKind) (cause : SyntaxCause) :
    Same (consume kind cause) (consume kind cause) :=
  (check_same kind).choose advance_same (fail_draws cause)

theorem skip_same (depth : Nat) : Same (skip depth) (skip depth) := by
  induction depth with
  | zero => exact .crash _
  | succ depth ih =>
    exact isAtEnd_same.choose (same_pure ()) <| previous_same.bind fun _ =>
      .ite (same_pure ()) <| peek_same.bind fun _ =>
        .ite (same_pure ()) <| advance_same.bind fun _ => ih

theorem synchronize_same (depth : Nat) : Same (synchronize depth) (synchronize depth) :=
  advance_same.bind fun _ => skip_same depth

/-- An error is kept, and its labels are lost. -/
theorem recover_draws (depth : Nat) {plain : α → β} {labels : α → List NodeId} {x : Labeled NodeId α}
    {y : Rule β} (hx : Draws [] plain labels x y) :
    Draws [] (Option.map plain) (fun v => v.toList.flatMap labels) (recover depth x)
      (recover depth y) := by
  intro p
  have hp := hx p
  cases hr : x p with
  | ok v q =>
    rw [hr] at hp
    rw [recover_ok hr]
    refine ⟨recover_ok hp.1, hp.2.1, ?_⟩
    simpa using hp.2.2
  | error i q =>
    rw [hr] at hp
    cases i with
    | crash c =>
      rw [recover_crash hr]
      exact ⟨recover_crash hp.1, hp.2⟩
    | fault e =>
      rw [recover_fault depth hr, recover_fault depth hp.1]
      have hsync : Draws [] (Option.map plain) (fun v => v.toList.flatMap labels)
          (synchronize depth >>= fun _ => pure none) (synchronize depth >>= fun _ => pure none) :=
        (synchronize_same depth).bind fun _ => .pure rfl List.nil_subperm
      have hq := hsync { q with errors := q.errors ++ [e] }
      cases hs : (synchronize depth >>= fun _ => pure (none : Option α))
          { q with errors := q.errors ++ [e] } with
      | error i r =>
        rw [hs] at hq
        exact ⟨hq.1, Nat.le_trans hp.2 hq.2⟩
      | ok v r =>
        rw [hs] at hq
        refine ⟨hq.1, Nat.le_trans hp.2 hq.2.1, hq.2.2.trans ?_⟩
        rw [range'_split hp.2 hq.2.1]
        exact (List.sublist_append_right _ _).subperm

/-- A loop keeps the labels of all its items. -/
theorem repeatUntil_draws {test : Labeled NodeId Bool} {test' : Rule Bool} {plain : α → β}
    {labels : α → List NodeId} {x : Labeled NodeId α} {y : Rule β} (ht : Same test test')
    (hx : Draws [] plain labels x y) (depth : Nat) :
    Draws [] (List.map plain) (List.flatMap labels) (repeatUntil test x depth)
      (repeatUntil test' y depth) := by
  induction depth with
  | zero => exact .crash _
  | succ depth ih =>
    refine ht.choose (.pure rfl List.nil_subperm) <| hx.bind fun v => ih.bind fun found => ?_
    refine .pure rfl ?_
    rw [List.flatMap_cons, List.append_nil]
    exact List.perm_append_comm.subperm

/-! ## Expressions -/

theorem closeArguments_draws (found : List (Expr NodeId)) :
    Draws (Expr.labelsAll found) (fun v => (Expr.relabelAll .bare v.1, v.2))
      (fun v => Expr.labelsAll v.1) (closeArguments found)
      (closeArguments (Expr.relabelAll .bare found)) :=
  (consume_same _ _).bind fun _ => .pure rfl (List.Subperm.refl _)

theorem labelsOption_some (e : Expr NodeId) : Expr.labelsOption (some e) = e.labels :=
  List.append_nil _

/-- A variable that is assigned to gives up its label. -/
theorem assign_draws : ∀ target value : Expr NodeId,
    Draws (value.labels ++ target.labels) (Option.map (Expr.relabel .bare)) Expr.labelsOption
      (assign target value) (assign (target.relabel .bare) (value.relabel .bare))
  | .variable id name, value => fresh_draws.bind fun i => .pure rfl <| by
    rw [labelsOption_some]
    exact ((List.sublist_append_left value.labels [id]).cons_cons i).subperm
  | .get object name, value => .pure rfl <| by
    rw [labelsOption_some, Expr.labels_set]
    exact List.perm_append_comm.subperm
  | .literal _, _ => .pure rfl List.nil_subperm
  | .unary _ _, _ => .pure rfl List.nil_subperm
  | .suffixed _ _, _ => .pure rfl List.nil_subperm
  | .binary _ _ _, _ => .pure rfl List.nil_subperm
  | .logical _ _ _, _ => .pure rfl List.nil_subperm
  | .grouping _, _ => .pure rfl List.nil_subperm
  | .assign _ _ _, _ => .pure rfl List.nil_subperm
  | .call _ _ _, _ => .pure rfl List.nil_subperm
  | .set _ _ _, _ => .pure rfl List.nil_subperm
  | .this _ _, _ => .pure rfl List.nil_subperm
  | .super _ _ _, _ => .pure rfl List.nil_subperm

theorem named_draws {x : Labeled NodeId (Expr NodeId)} {y : Rule (Expr Unit)}
    (hx : Draws [] (Expr.relabel .bare) Expr.labels x y) :
    Draws [] (Expr.relabel .bare) Expr.labels (named x) (named y) := by
  refine (accept_same _).choose ?_ ((accept_same _).choose ?_
    ((accept_same _).choose ?_ ((accept_same _).choose ?_ (fail_draws _))))
  · exact fresh_draws.bind fun i => previous_same.bind fun _ => .pure rfl (List.Subperm.refl [i])
  · exact previous_same.bind fun _ => (consume_same _ _).bind fun _ =>
      (consume_same _ _).bind fun _ => fresh_draws.bind fun i => .pure rfl (List.Subperm.refl [i])
  · exact fresh_draws.bind fun i => previous_same.bind fun _ => .pure rfl (List.Subperm.refl [i])
  · exact hx.andThen fun _ => (consume_same _ _).bind fun _ => .pure rfl (List.Subperm.refl _)

mutual

theorem expression_draws : ∀ depth,
    Draws [] (Expr.relabel .bare) Expr.labels (expression depth) (expression depth)
  | 0 => .crash _
  | depth + 1 =>
    (operators_draws depth .or).bind fun target =>
      (accept_same _).choose
        (previous_same.bind fun _ => get_bind_draws fun _ =>
          (expression_draws depth).bind fun value => by
            rw [List.append_nil]
            refine (assign_draws target value).andThen fun found => ?_
            cases found with
            | some e => exact .pure rfl (labelsOption_some e ▸ List.Subperm.refl _)
            | none => exact .fault _)
        (.pure rfl (List.sublist_append_left _ _).subperm)

theorem operators_draws : ∀ depth level,
    Draws [] (Expr.relabel .bare) Expr.labels (operators depth level) (operators depth level)
  | 0, _ => .crash _
  | depth + 1, level =>
    (operand_draws depth level).andThen fun left => moreOperands_draws depth level left

theorem moreOperands_draws : ∀ depth level (left : Expr NodeId),
    Draws left.labels (Expr.relabel .bare) Expr.labels (moreOperands depth level left)
      (moreOperands depth level (left.relabel .bare))
  | 0, _, _ => .crash _
  | depth + 1, level, left =>
    (checkAny_same _).choose
      (advance_same.bind fun operator => (operand_draws depth level).bind fun right => by
        have hmore := moreOperands_draws depth level (level.combine left operator right)
        rw [Grammar.Level.combine_relabel, Expr.labels_combine] at hmore
        exact hmore.mono List.perm_append_comm.subperm)
      (.pure rfl (List.Subperm.refl _))

theorem operand_draws : ∀ depth level,
    Draws [] (Expr.relabel .bare) Expr.labels (operand depth level) (operand depth level)
  | 0, _ => .crash _
  | depth + 1, .or => operators_draws depth .and
  | depth + 1, .and => operators_draws depth .equality
  | depth + 1, .equality => operators_draws depth .comparison
  | depth + 1, .comparison => operators_draws depth .term
  | depth + 1, .term => operators_draws depth .factor
  | depth + 1, .factor => unary_draws depth

theorem unary_draws : ∀ depth,
    Draws [] (Expr.relabel .bare) Expr.labels (unary depth) (unary depth)
  | 0 => .crash _
  | depth + 1 =>
    (acceptAny_same _).choose
      (previous_same.bind fun _ => (unary_draws depth).andThen fun _ =>
        .pure rfl (List.Subperm.refl _))
      (suffixed_draws depth)

theorem suffixed_draws : ∀ depth,
    Draws [] (Expr.relabel .bare) Expr.labels (suffixed depth) (suffixed depth)
  | 0 => .crash _
  | depth + 1 =>
    (call_draws depth).andThen fun _ =>
      (acceptAny_same _).choose (previous_same.bind fun _ => .pure rfl (List.Subperm.refl _))
        (.pure rfl (List.Subperm.refl _))

theorem call_draws : ∀ depth,
    Draws [] (Expr.relabel .bare) Expr.labels (call depth) (call depth)
  | 0 => .crash _
  | depth + 1 => (primary_draws depth).andThen fun e => moreCalls_draws depth e

theorem moreCalls_draws : ∀ depth (e : Expr NodeId),
    Draws e.labels (Expr.relabel .bare) Expr.labels (moreCalls depth e)
      (moreCalls depth (e.relabel .bare))
  | 0, _ => .crash _
  | depth + 1, e =>
    (accept_same _).choose
      ((arguments_draws depth).bind fun found => by
        have hmore := moreCalls_draws depth (.call e found.2 found.1)
        rw [Expr.labels_call] at hmore
        exact hmore.mono List.perm_append_comm.subperm)
      ((accept_same _).choose
        ((consume_same _ _).bind fun name => moreCalls_draws depth (.get e name.toName))
        (.pure rfl (List.Subperm.refl _)))

theorem arguments_draws : ∀ depth,
    Draws [] (fun v => (Expr.relabelAll .bare v.1, v.2)) (fun v => Expr.labelsAll v.1)
      (arguments depth) (arguments depth)
  | 0 => .crash _
  | depth + 1 =>
    (check_same _).choose (closeArguments_draws [])
      ((argumentList_draws depth 0).andThen fun found => closeArguments_draws found)

theorem argumentList_draws : ∀ depth count,
    Draws [] (Expr.relabelAll .bare) Expr.labelsAll (argumentList depth count)
      (argumentList depth count)
  | 0, _ => .crash _
  | depth + 1, count => .ite (fail_draws _) <| (expression_draws depth).bind fun e =>
      (accept_same _).choose
        ((argumentList_draws depth (count + 1)).bind fun rest =>
          .pure rfl (by
            rw [List.append_nil]
            exact List.perm_append_comm.subperm))
        (.pure rfl (List.Subperm.refl _))

theorem primary_draws : ∀ depth,
    Draws [] (Expr.relabel .bare) Expr.labels (primary depth) (primary depth)
  | 0 => .crash _
  | depth + 1 =>
    (accept_same _).choose (.pure rfl List.nil_subperm) <|
      (accept_same _).choose (.pure rfl List.nil_subperm) <|
      (accept_same _).choose (.pure rfl List.nil_subperm) <| peek_same.bind fun t => by
        have hnamed := named_draws (expression_draws depth)
        cases t.kind with
        | number x => exact advance_same.bind fun _ => .pure rfl List.nil_subperm
        | string text => exact advance_same.bind fun _ => .pure rfl List.nil_subperm
        | symbol s => exact hnamed
        | identifier => exact hnamed
        | eof => exact hnamed

end

end Parser

end ClassScript
