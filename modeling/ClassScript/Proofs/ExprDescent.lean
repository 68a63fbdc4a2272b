import ClassScript.Proofs.TokenPlaces

/-!
# The parser follows the grammar

Every rule of the parser does what the rule of the grammar does with the tokens before the end of the
source, if enough nested calls are allowed. Behind the last token the parser still looks at that token, so
where a value or the name of a type may come, a token that is none must stand before (`Parser.Ready`).
-/

set_option autoImplicit false

namespace ClassScript

namespace Outcome

variable {α β γ : Type} {a b : Bool} {s r : List Token} {t : Token}

theorem map_past (f : α → β) (o : Outcome a α r) :
    (o.past : Outcome b α (t :: r)).map f = (o.map f).past := by
  cases o <;> rfl

theorem map_map (f : α → β) (g : β → γ) (o : Outcome a α s) :
    (o.map f).map g = o.map fun v => g (f v) := by
  cases o <;> rfl

end Outcome

namespace Parser

open Grammar (Level)

variable {final t : Token} {s rest : List Token} {p : Parser} {enough : Prop}

/-! ## Behind the last token -/

/-- A token that is a value or the name of a type, which a parser behind it would read again. -/
def isValue (t : Token) : Bool :=
  match t.kind with
  | .number _ => true
  | .string _ => true
  | _ => Grammar.isTypeName t

/-- If no token is left, then the last one is no value. -/
def Ready (final : Token) (s : List Token) : Prop :=
  s = [] → isValue final = false

theorem At.ready (h : At final (t :: rest) p) (ht : isValue t = false) : Ready final rest := by
  rintro rfl
  obtain ⟨tail, htail, hdrop⟩ := h.rest
  cases htail with
  | eof hkind => simp [isValue, Grammar.isTypeName, hkind]
  | missing hlast =>
    have hlast' := congrArg List.getLast? hdrop
    rw [List.getLast?_drop, if_neg (by have := h.lt_size; simp; omega), hlast] at hlast'
    cases hlast'
    exact ht

theorem Ready.cons : Ready final (t :: rest) :=
  nofun

/-- A token of a symbol that names no type is no value. -/
theorem isValue_symbol {symbol : Symbol} (ht : t.kind = .symbol symbol)
    (hs : symbol ∉ [Symbol.numberWord, .stringWord, .booleanWord, .voidWord]) : isValue t = false := by
  unfold isValue Grammar.isTypeName
  rw [ht]
  exact decide_eq_false hs

theorem isValue_of_any {symbols : List Symbol} (ht : symbols.any t.isSymbol = true)
    (hs : ∀ s ∈ symbols, s ∉ [Symbol.numberWord, .stringWord, .booleanWord, .voidWord]) :
    isValue t = false := by
  obtain ⟨symbol, hmem, hsymbol⟩ := List.any_eq_true.1 ht
  exact isValue_symbol (of_decide_eq_true hsymbol) (hs symbol hmem)

/-! ## Expressions -/

theorem not_isValue_operator {level : Level} (ht : level.admits t = true) : isValue t = false :=
  isValue_of_any ht (by cases level <;> decide)

theorem suffix_tracks (hp : At final s p) (e : Expr Unit) :
    Tracks enough p
      (acceptAny Grammar.suffixSymbols >>= fun b =>
        if b = true then previous >>= fun t => pure (.suffixed e t) else pure e)
      (Grammar.suffix e s) := by
  cases s with
  | nil => exact Follows.refuse hp.acceptAny_nil Tracks.done
  | cons t rest =>
    rw [Grammar.suffix]
    split
    next ht =>
      refine Tracks.one ?_
      rw [bind_of_ok (hp.acceptAny_eq ht)]
      exact bind_of_ok hp.previous_tail
    next ht => exact Follows.refuse (hp.acceptAny_ne ht) Tracks.done

theorem closeArguments_tracks (hp : At final s p) (found : List (Expr Unit)) :
    Tracks enough p (closeArguments found)
      ((Grammar.expectSymbol final .rightParen .argumentsClose s).map fun t => (found, t.line)) :=
  (consume_symbol hp .rightParen .argumentsClose).map

theorem moreArguments_close {count : Nat} (h : ∀ t ∈ s.head?, ¬ t.isSymbol .comma = true) :
    Grammar.moreArguments final count s =
      (Grammar.expectSymbol final .rightParen .argumentsClose s).map fun t => ([], t.line) := by
  cases s with
  | nil =>
    rw [Grammar.moreArguments]
    rfl
  | cons t rest =>
    rw [Grammar.moreArguments, if_neg (h t rfl), Grammar.expectSymbol, Grammar.expect]
    split <;> rfl

theorem closeArguments_cons (e : Expr Unit) (found : List (Expr Unit)) :
    closeArguments (e :: found) = closeArguments found >>= fun v => pure (e :: v.1, v.2) := by
  simp [closeArguments]

theorem leftFrom_past (used : List Token) (log : List SyntaxError) (index : Nat) :
    (p.past used log).leftFrom index = p.leftFrom index :=
  rfl

/-- A token that is no constant word is looked at. -/
theorem peek_tracks {x : Token → Rule (Expr Unit)} {o : Outcome true (Expr Unit) (t :: rest)}
    (hp : At final (t :: rest) p) (hfalse : t.kind ≠ .symbol .falseWord)
    (htrue : t.kind ≠ .symbol .trueWord) (hnil : t.kind ≠ .symbol .nilWord)
    (hx : Tracks enough p (x t) o) :
    Tracks enough p (do
      if ← accept (.symbol .falseWord) then return .literal (.boolean false)
      else if ← accept (.symbol .trueWord) then return .literal (.boolean true)
      else if ← accept (.symbol .nilWord) then return .literal .nil
      else x (← peek)) o :=
  Follows.refuse (hp.accept_ne hfalse) (Follows.refuse (hp.accept_ne htrue)
    (Follows.refuse (hp.accept_ne hnil) (.stay hp.peek hx)))

theorem assign_eq (target value : Expr Unit) (p : Parser) :
    assign target value p = .ok (Grammar.assignTo? target value) p := by
  cases target <;> rfl

theorem superAccess_tracks (hp : At final s p) (keyword : Token) :
    Tracks enough p (do
      let _ ← consume (.symbol .dot) .superDot
      let method ← consume .identifier .superMethod
      return .super (← fresh) keyword.toName method.toName) (Grammar.superAccess final keyword.toName s) := by
  refine Tracks.andThen hp (consume_symbol hp _ _) fun _ r _ q hq => ?_
  rw [Grammar.expectName, Outcome.map_map]
  simp only [fresh_bind]
  exact (consume_tracks hq _ _).map

mutual

theorem expression_tracks (depth : Nat) {s : List Token} {p : Parser} (hp : At final s p)
    (hr : Ready final s) :
    Tracks (64 * s.length + 18 < depth) p (expression depth) (Grammar.expression final s) := by
  match depth with
  | 0 => exact .zero
  | depth + 1 =>
    rw [expression, Grammar.expression]
    refine Tracks.andThen hp ((operators_tracks depth .or hp hr).mono fun h => ?_)
      fun target r h q hq => ?_
    · simp only [Level.height]
      omega
    cases r with
    | nil =>
      rw [Grammar.assignment]
      exact Follows.refuse (hq.accept_nil _) Tracks.done
    | cons t rest =>
      rw [Grammar.assignment]
      split
      next ht =>
        have hvalue : isValue t = false := isValue_symbol (of_decide_eq_true ht) (by decide)
        simp only [Bool.toNat_true, List.length_cons] at h
        refine Tracks.take (hq.accept_symbol ht) (.stay hq.previous_tail (.stay (x := get) rfl ?_))
        refine Tracks.andThen hq.tail
          ((expression_tracks depth hq.tail (hq.ready hvalue)).mono (by omega))
          fun value r h q' hq' => ?_
        refine .stay (assign_eq target value q') ?_
        cases Grammar.assignTo? target value with
        | some e => exact Tracks.done
        | none =>
          refine Tracks.failed ?_
          show EStateM.Result.error _ _ = _
          rw [show (q.past [t] []).current - 1 = q.current from rfl, leftFrom_past,
            hq.leftFrom]
          rfl
      next ht => exact Follows.refuse (hq.accept_no_symbol ht) Tracks.done

theorem operators_tracks (depth : Nat) (level : Level) {s : List Token} {p : Parser}
    (hp : At final s p) (hr : Ready final s) :
    Tracks (64 * s.length + 2 * level.height + 4 < depth) p (operators depth level)
      (Grammar.operators final level s) := by
  match depth with
  | 0 => exact .zero
  | depth + 1 =>
    rw [operators, Grammar.operators]
    refine Tracks.andThen hp ((operand_tracks depth level hp hr).mono (by omega))
      fun left r h q hq => ?_
    simp only [Bool.toNat_true] at h
    exact (moreOperands_tracks depth level left hq).mono (by omega)

theorem moreOperands_tracks (depth : Nat) (level : Level) (left : Expr Unit) {s : List Token}
    {p : Parser} (hp : At final s p) :
    Tracks (64 * s.length < depth) p (moreOperands depth level left)
      (Grammar.moreOperands final level left s) := by
  match depth with
  | 0 => exact .zero
  | depth + 1 =>
    rw [moreOperands]
    cases s with
    | nil =>
      rw [Grammar.moreOperands]
      exact Follows.refuse hp.checkAny Tracks.done
    | cons t rest =>
      have hheight := level.height_le
      rw [Grammar.moreOperands]
      split
      next ht =>
        refine .stay (hp.checkAny_eq ht) (Tracks.past hp.advance ?_)
        refine Tracks.andThen hp.tail
          ((operand_tracks depth level hp.tail (hp.ready (not_isValue_operator ht))).mono fun h => ?_)
          fun right r h q hq => ?_
        · simp only [List.length_cons] at h
          omega
        · simp only [Bool.toNat_true] at h
          exact (moreOperands_tracks depth level _ hq).mono fun h => by
            simp only [List.length_cons] at h
            omega
      next ht =>
        exact Follows.refuse (hp.checkAny_ne ht) Tracks.done

theorem operand_tracks (depth : Nat) (level : Level) {s : List Token} {p : Parser}
    (hp : At final s p) (hr : Ready final s) :
    Tracks (64 * s.length + 2 * level.height + 3 < depth) p (operand depth level)
      (Grammar.operand final level s) := by
  match depth with
  | 0 => exact .zero
  | depth + 1 =>
    rw [Grammar.operand.eq_def]
    cases level with
    | or => exact (operators_tracks depth .and hp hr).mono (by simp only [Level.height]; omega)
    | and => exact (operators_tracks depth .equality hp hr).mono (by simp only [Level.height]; omega)
    | equality =>
      exact (operators_tracks depth .comparison hp hr).mono (by simp only [Level.height]; omega)
    | comparison => exact (operators_tracks depth .term hp hr).mono (by simp only [Level.height]; omega)
    | term => exact (operators_tracks depth .factor hp hr).mono (by simp only [Level.height]; omega)
    | factor => exact (unary_tracks depth hp hr).mono (by simp only [Level.height]; omega)

theorem unary_tracks (depth : Nat) {s : List Token} {p : Parser} (hp : At final s p)
    (hr : Ready final s) :
    Tracks (64 * s.length + 4 < depth) p (unary depth) (Grammar.unary final s) := by
  match depth with
  | 0 => exact .zero
  | depth + 1 =>
    rw [unary]
    cases s with
    | nil =>
      rw [Grammar.unary]
      exact Follows.refuse hp.acceptAny_nil ((suffixed_tracks depth hp hr).mono (by omega))
    | cons t rest =>
      rw [Grammar.unary]
      split
      next ht =>
        have hvalue : isValue t = false := isValue_of_any ht (by decide)
        refine Tracks.take (hp.acceptAny_eq ht) (.stay hp.previous_tail (Tracks.map ?_))
        exact (unary_tracks depth hp.tail (hp.ready hvalue)).mono (by simp only [List.length_cons]; omega)
      next ht =>
        exact Follows.refuse (hp.acceptAny_ne ht) ((suffixed_tracks depth hp hr).mono (by omega))

theorem suffixed_tracks (depth : Nat) {s : List Token} {p : Parser} (hp : At final s p)
    (hr : Ready final s) :
    Tracks (64 * s.length + 3 < depth) p (suffixed depth) (Grammar.suffixed final s) := by
  match depth with
  | 0 => exact .zero
  | depth + 1 =>
    rw [suffixed, Grammar.suffixed]
    exact Tracks.andThen hp ((call_tracks depth hp hr).mono (by omega))
      fun e r _ q hq => suffix_tracks hq e

theorem call_tracks (depth : Nat) {s : List Token} {p : Parser} (hp : At final s p)
    (hr : Ready final s) :
    Tracks (64 * s.length + 2 < depth) p (call depth) (Grammar.call final s) := by
  match depth with
  | 0 => exact .zero
  | depth + 1 =>
    rw [call, Grammar.call]
    refine Tracks.andThen hp ((primary_tracks depth hp hr).mono (by omega)) fun e r h q hq => ?_
    simp only [Bool.toNat_true] at h
    exact (moreCalls_tracks depth e hq).mono (by omega)

theorem moreCalls_tracks (depth : Nat) (e : Expr Unit) {s : List Token} {p : Parser}
    (hp : At final s p) :
    Tracks (64 * s.length < depth) p (moreCalls depth e) (Grammar.moreCalls final e s) := by
  match depth with
  | 0 => exact .zero
  | depth + 1 =>
    rw [moreCalls]
    cases s with
    | nil =>
      rw [Grammar.moreCalls]
      exact Follows.refuse (hp.accept_nil _) (Follows.refuse (hp.accept_nil _) Tracks.done)
    | cons t rest =>
      rw [Grammar.moreCalls]
      simp only [List.length_cons]
      split
      next ht =>
        have hvalue : isValue t = false := isValue_symbol (of_decide_eq_true ht) (by decide)
        refine Tracks.take (hp.accept_symbol ht) (Tracks.andThen hp.tail
          ((arguments_tracks depth hp.tail (hp.ready hvalue)).mono (by omega))
          fun found r h q hq => ?_)
        simp only [Bool.toNat_true] at h
        exact (moreCalls_tracks depth _ hq).mono (by omega)
      next hparen =>
        refine Follows.refuse (hp.accept_no_symbol hparen) ?_
        split
        next ht =>
          refine Tracks.take (hp.accept_symbol ht) (consume_name_then
            (f := fun name => moreCalls depth (.get e name)) hp.tail fun name r h q hq => ?_)
          simp only [Bool.toNat_true] at h
          exact (moreCalls_tracks depth _ hq).mono (by omega)
        next ht => exact Follows.refuse (hp.accept_no_symbol ht) Tracks.done

theorem arguments_tracks (depth : Nat) {s : List Token} {p : Parser} (hp : At final s p)
    (hr : Ready final s) :
    Tracks (64 * s.length + 20 < depth) p (arguments depth) (Grammar.arguments final s) := by
  match depth with
  | 0 => exact .zero
  | depth + 1 =>
    rw [arguments]
    cases s with
    | nil =>
      rw [Grammar.arguments]
      exact Follows.refuse (hp.check _) ((argumentList_tracks depth 0 hp hr).mono (by omega))
    | cons t rest =>
      rw [Grammar.arguments]
      split
      next ht =>
        refine Tracks.one ((bind_of_ok (hp.check_symbol ht)).trans ?_)
        exact bind_of_ok (hp.consume_eq (of_decide_eq_true ht) _)
      next ht =>
        exact Follows.refuse (hp.check_no_symbol ht) ((argumentList_tracks depth 0 hp hr).mono (by omega))

/-- The list of arguments and the parenthesis that closes it. -/
theorem argumentList_tracks (depth count : Nat) {s : List Token} {p : Parser} (hp : At final s p)
    (hr : Ready final s) :
    Tracks (64 * s.length + 19 < depth) p (argumentList depth count >>= closeArguments)
      (Grammar.argumentList final count s) := by
  match depth with
  | 0 => exact .tooDeep (by omega) rfl
  | depth + 1 =>
    rw [argumentList, Grammar.argumentList]
    by_cases hcount : Grammar.maxArity ≤ count
    · rw [if_pos hcount, if_pos hcount]
      exact Tracks.failed (bind_of_error (hp.fail _))
    · rw [if_neg hcount, if_neg hcount, bind_assoc]
      refine Tracks.andThen hp ((expression_tracks depth hp hr).mono (by omega))
        fun e r h q hq => ?_
      simp only [Bool.toNat_true] at h
      rw [bind_assoc]
      by_cases hcomma : ∃ t ∈ r.head?, t.isSymbol .comma = true
      · obtain ⟨t, ht, hcomma⟩ := hcomma
        obtain ⟨rest, rfl⟩ := List.head?_eq_some_iff.1 ht
        have hvalue : isValue t = false := isValue_symbol (of_decide_eq_true hcomma) (by decide)
        have hmore := (argumentList_tracks depth (count + 1) hq.tail (hq.ready hvalue)).map
          (f := fun found => (e :: found.1, found.2))
        rw [Grammar.moreArguments, if_pos hcomma, Outcome.map_past]
        simp only [bind_assoc] at hmore
        refine Tracks.past (hq.accept_symbol hcomma) ((hmore.congr (congrFun ?_ _)).mono ?_)
        · simp only [if_true, bind_assoc, pure_bind, closeArguments_cons]
          rfl
        · simp only [List.length_cons] at h
          omega
      · rw [moreArguments_close fun t ht hc => hcomma ⟨t, ht, hc⟩, Outcome.map_map]
        refine .stay (v := false) ?_ (closeArguments_tracks hq [e])
        cases r with
        | nil => exact hq.accept_nil _
        | cons t rest => exact hq.accept_no_symbol fun hc => hcomma ⟨t, rfl, hc⟩

theorem primary_tracks (depth : Nat) {s : List Token} {p : Parser} (hp : At final s p)
    (hr : Ready final s) :
    Tracks (64 * s.length + 1 < depth) p (primary depth) (Grammar.primary final s) := by
  match depth with
  | 0 => exact .zero
  | depth + 1 =>
    rw [primary]
    cases s with
    | nil =>
      rw [Grammar.primary]
      refine Follows.refuse (hp.accept_nil _) (Follows.refuse (hp.accept_nil _)
        (Follows.refuse (hp.accept_nil _) (.stay hp.peek ?_)))
      have hvalue := hr rfl
      rw [List.headD_nil]
      split
      next x hk => simp [isValue, hk] at hvalue
      next x hk => simp [isValue, hk] at hvalue
      next =>
        exact Follows.refuse (hp.accept_nil _) (Follows.refuse (hp.accept_nil _)
          (Follows.refuse (hp.accept_nil _) (Follows.refuse (hp.accept_nil _)
            (Tracks.reject hp _))))
    | cons t rest =>
      rw [Grammar.primary]
      split
      next hk => exact Tracks.found hp hk
      next hk => exact Follows.refuse (hp.accept_ne (by simp [hk])) (Tracks.found hp hk)
      next hk =>
        exact Follows.refuse (hp.accept_ne (by simp [hk]))
          (Follows.refuse (hp.accept_ne (by simp [hk])) (Tracks.found hp hk))
      next x hk =>
        refine peek_tracks hp (by simp [hk]) (by simp [hk]) (by simp [hk]) ?_
        rw [hk]
        exact Tracks.one (bind_of_ok hp.advance)
      next x hk =>
        refine peek_tracks hp (by simp [hk]) (by simp [hk]) (by simp [hk]) ?_
        rw [hk]
        exact Tracks.one (bind_of_ok hp.advance)
      next hk =>
        refine peek_tracks hp (by simp [hk]) (by simp [hk]) (by simp [hk]) ?_
        rw [hk]
        exact Tracks.foundToken hp hk
      next hk =>
        refine peek_tracks hp (by simp [hk]) (by simp [hk]) (by simp [hk]) ?_
        rw [hk]
        exact Follows.refuse (hp.accept_ne (by simp [hk])) (Tracks.take (hp.accept_eq hk)
          (.stay hp.previous_tail (superAccess_tracks hp.tail t)))
      next hk =>
        refine peek_tracks hp (by simp [hk]) (by simp [hk]) (by simp [hk]) ?_
        rw [hk]
        exact Follows.refuse (hp.accept_ne (by simp [hk])) (Follows.refuse (hp.accept_ne (by simp [hk]))
          (Tracks.foundToken hp hk))
      next hk =>
        refine peek_tracks hp (by simp [hk]) (by simp [hk]) (by simp [hk]) ?_
        rw [hk]
        refine Follows.refuse (hp.accept_ne (by simp [hk])) (Follows.refuse (hp.accept_ne (by simp [hk]))
          (Follows.refuse (hp.accept_ne (by simp [hk])) (Tracks.take (hp.accept_eq hk) ?_)))
        refine Tracks.andThen hp.tail
          ((expression_tracks depth hp.tail (hp.ready (isValue_symbol hk (by decide)))).mono
            (by simp only [List.length_cons]; omega)) fun e r _ q hq => ?_
        exact (consume_symbol hq _ _).map
      next hfalse htrue hnil hnumber hstring hthis hsuper hname hparen =>
        refine peek_tracks hp hfalse htrue hnil ?_
        split
        next x hk => exact (hnumber x hk).elim
        next x hk => exact (hstring x hk).elim
        exact Follows.refuse (hp.accept_ne hthis) (Follows.refuse (hp.accept_ne hsuper)
          (Follows.refuse (hp.accept_ne hname) (Follows.refuse (hp.accept_ne hparen)
            (Tracks.reject hp _))))

end

end Parser

end ClassScript
