import ClassScript.Proofs.ExprDescent

/-!
# Statements of the parser and of the grammar

The rules for declarations, statements and classes do what the rules of the grammar do. A loop of the
parser reads one item after the other until a test holds; where the grammar has a recursive rule instead,
each turn of the loop is one call of that rule (`repeatUntil_follows`).
-/

set_option autoImplicit false

namespace ClassScript.Parser

variable {final t : Token} {s rest : List Token} {p q : Parser} {enough : Prop} {α β : Type}

/-! ## Behind a symbol -/

/-- The last token that was read is no value. -/
def Settled (p : Parser) : Prop :=
  ∀ t, p.tokens[p.current - 1]? = some t → isValue t = false

theorem At.ready_of_settled (h : At final s p) (hp : Settled p) : Ready final s := by
  rintro rfl
  obtain ⟨tail, htail, hdrop⟩ := h.rest
  cases htail with
  | eof hkind => simp [isValue, Grammar.isTypeName, hkind]
  | missing hlast =>
    have hle : p.tokens.size ≤ p.current := by simpa using hdrop
    refine hp final ?_
    rw [Nat.le_antisymm h.inside hle, ← Array.getElem?_toList, ← Array.length_toList,
      ← List.getLast?_eq_getElem?, hlast]

theorem ok_of_bind {x : Rule α} {f : α → Rule β} {w : β} (h : (x >>= f) p = .ok w q) :
    ∃ v r, x p = .ok v r ∧ f v r = .ok w q := by
  change EStateM.bind x f p = .ok w q at h
  unfold EStateM.bind at h
  split at h
  next heq => exact ⟨_, _, heq, h⟩
  next => cases h

theorem fail_ne_ok {cause : SyntaxCause} {v : α} : (fail cause : Rule α) p ≠ .ok v q := by
  intro h
  obtain ⟨_, r, -, h⟩ := ok_of_bind (x := get) h
  obtain ⟨_, _, -, h⟩ := ok_of_bind h
  cases h

/-- A look at a token leaves the parser where it is, and the token that it saw is the one that `advance`
reads. -/
theorem check_ok {kind : TokenKind} {b : Bool} (h : check kind p = .ok b q) :
    q = p ∧ (b = true → ∃ t, t.kind = kind ∧ p.tokens[p.current]? = some t ∧
      advance p = .ok t { p with current := p.current + 1 }) := by
  by_cases hlt : p.current < p.tokens.size
  · have hget : p.tokens[p.current]? = some p.tokens[p.current] := Array.getElem?_eq_getElem hlt
    generalize p.tokens[p.current] = u at hget
    have hpeek : peek p = .ok u p := by
      rw [peek, get_bind, Nat.min_eq_left (by omega)]
      exact tokenAt_of_get hget
    have hend : isAtEnd p = .ok (decide (u.kind = .eof)) p := by
      rw [isAtEnd, get_bind, if_neg (by omega), bind_of_ok hpeek]
      rfl
    rw [check, bind_of_ok hend] at h
    by_cases heof : u.kind = .eof
    · rw [decide_eq_true heof] at h
      cases h
      exact ⟨rfl, fun hb => by cases hb⟩
    · rw [decide_eq_false heof, if_neg Bool.false_ne_true, bind_of_ok hpeek] at h
      cases h
      refine ⟨rfl, fun hkind => ⟨u, of_decide_eq_true hkind, hget, ?_⟩⟩
      rw [advance, bind_of_ok hend, decide_eq_false heof]
      exact tokenAt_of_get hget
  · rw [check, bind_of_ok (v := true) (q := p)
      (by rw [isAtEnd, get_bind, if_pos (by omega)]; rfl)] at h
    cases h
    exact ⟨rfl, fun hb => by cases hb⟩

/-- Whenever the rule gives a value, the last token that it read is no value. -/
def Settles (x : Rule α) : Prop :=
  ∀ ⦃p v q⦄, x p = .ok v q → Settled q

namespace Settles

theorem bind {x : Rule α} {f : α → Rule β} (h : ∀ v, Settles (f v)) : Settles (x >>= f) := by
  intro p w r hr
  obtain ⟨v, q, -, hr⟩ := ok_of_bind hr
  exact h v hr

/-- What is made of the value reads nothing. -/
theorem map {x : Rule α} {f : α → β} (h : Settles x) : Settles (x >>= fun v => pure (f v)) := by
  intro p w r hr
  obtain ⟨v, q, hq, hr⟩ := ok_of_bind hr
  cases hr
  exact h hq

variable {symbol : Symbol}
  (hs : symbol ∉ [Symbol.numberWord, .stringWord, .booleanWord, .voidWord])

include hs

theorem consume {cause : SyntaxCause} : Settles (consume (.symbol symbol) cause) := by
  intro p u q h t ht
  obtain ⟨b, _, hcheck, h⟩ := ok_of_bind h
  obtain ⟨rfl, hread⟩ := check_ok hcheck
  cases b with
  | false => exact (fail_ne_ok h).elim
  | true =>
    obtain ⟨u, hkind, hget, hadvance⟩ := hread rfl
    cases hadvance.symm.trans h
    cases hget.symm.trans ht
    exact isValue_symbol hkind hs

/-- The symbol is all that is wanted, or another rule settles. -/
theorem choose {v : β} {B : Rule β} (hB : Settles B) :
    Settles (accept (.symbol symbol) >>= fun b => if b = true then pure v else B) := by
  intro p w q h t ht
  obtain ⟨b, _, haccept, h⟩ := ok_of_bind h
  cases b with
  | false => exact hB h t ht
  | true =>
    cases h
    obtain ⟨b, _, hcheck, haccept⟩ := ok_of_bind haccept
    obtain ⟨rfl, hread⟩ := check_ok hcheck
    cases b with
    | false => cases haccept
    | true =>
      obtain ⟨u, hkind, hget, hadvance⟩ := hread rfl
      rw [if_pos rfl, bind_of_ok hadvance] at haccept
      cases haccept
      cases hget.symm.trans ht
      exact isValue_symbol hkind hs

end Settles

/-! ## Declarations of variables -/

theorem isTypeName_of_isValue (h : isValue t = false) : Grammar.isTypeName t = false := by
  unfold isValue at h
  unfold Grammar.isTypeName at h ⊢
  split at h <;> simp_all

theorem typeName_tracks (hp : At final s p) (hr : Ready final s) :
    Tracks enough p typeName (Grammar.expect final Grammar.isTypeName .typeName s) := by
  refine .stay hp.peek ?_
  cases s with
  | nil =>
    rw [List.headD_nil, isTypeName_of_isValue (hr rfl)]
    exact Tracks.reject hp _
  | cons t rest =>
    rw [List.headD_cons, Grammar.expect]
    split
    · exact Tracks.one hp.advance
    · exact Tracks.reject hp _

theorem typeName?_tracks (hp : At final s p) :
    Tracks enough p typeName? (Grammar.typeName? final s) := by
  cases s with
  | nil => exact Follows.refuse (hp.accept_nil _) Tracks.done
  | cons t rest =>
    rw [Grammar.typeName?]
    split
    next ht =>
      have hvalue : isValue t = false := isValue_symbol (of_decide_eq_true ht) (by decide)
      exact Tracks.take (hp.accept_symbol ht) (typeName_tracks hp.tail (hp.ready hvalue)).map
    next ht => exact Follows.refuse (hp.accept_no_symbol ht) Tracks.done

theorem initializer?_tracks (depth : Nat) (hp : At final s p) :
    Tracks (64 * s.length < depth) p (initializer? depth) (Grammar.initializer? final s) := by
  cases s with
  | nil => exact Follows.refuse (hp.accept_nil _) Tracks.done
  | cons t rest =>
    rw [Grammar.initializer?]
    split
    next ht =>
      have hvalue : isValue t = false := isValue_symbol (of_decide_eq_true ht) (by decide)
      refine Tracks.take (hp.accept_symbol ht) (Tracks.map ?_)
      exact (expression_tracks depth hp.tail (hp.ready hvalue)).mono
        (by simp only [List.length_cons]; omega)
    next ht => exact Follows.refuse (hp.accept_no_symbol ht) Tracks.done

theorem varDeclaration_tracks (depth : Nat) (hp : At final s p) :
    Tracks (64 * s.length < depth) p (varDeclaration depth) (Grammar.varDeclaration final s) := by
  refine consume_name_then
    (f := fun name => typeName? >>= fun typeName => initializer? depth >>= fun initializer =>
      consume (.symbol .semicolon) .variableEnd >>= fun _ =>
        pure (⟨name, typeName, initializer⟩ : VarDecl Unit))
    hp fun name r h q hq => ?_
  refine Tracks.andThen hq (typeName?_tracks hq) fun typeName r' h' q' hq' => ?_
  refine Tracks.andThen hq' ((initializer?_tracks depth hq').mono (by omega))
    fun initializer r'' _ q'' hq'' => ?_
  exact (consume_symbol hq'' _ _).map

theorem varDeclaration_settles (depth : Nat) : Settles (varDeclaration depth) :=
  .bind fun _ => .bind fun _ => .bind fun _ => (Settles.consume (by decide)).map

/-! ## Headers -/

theorem parameter_tracks (hp : At final s p) :
    Tracks enough p parameter (Grammar.parameter final s) := by
  refine consume_name_then
    (f := fun name => consume (.symbol .colon) .parameterColon >>= fun _ =>
      typeName >>= fun typeName => pure (⟨name, typeName⟩ : Param)) hp fun name r _ q hq => ?_
  refine consume_symbol_then hq fun t r' _ ht hq' => ?_
  exact (typeName_tracks hq'.tail (hq'.ready (isValue_symbol ht (by decide)))).map

theorem closeParameters_tracks (hp : At final s p) (found : List Param) :
    Tracks enough p (closeParameters found)
      ((Grammar.expectSymbol final .rightParen .parametersClose s).map fun _ => found) :=
  (consume_symbol hp _ _).map

theorem closeParameters_cons (first : Param) (found : List Param) :
    (closeParameters (first :: found) : Rule (List Param)) =
      closeParameters found >>= fun v => pure (first :: v) := by
  simp [closeParameters]

/-- The list of parameters and the parenthesis that closes it. -/
theorem parameterList_tracks (depth count : Nat) {s : List Token} {p : Parser} (hp : At final s p) :
    Tracks (64 * s.length < depth) p (parameterList depth count >>= closeParameters)
      (Grammar.parameterList final count s) := by
  induction depth generalizing count s p with
  | zero => exact .tooDeep (by omega) rfl
  | succ depth ih =>
    rw [parameterList, Grammar.parameterList]
    by_cases hcount : Grammar.maxArity ≤ count
    · rw [if_pos hcount, if_pos hcount]
      exact Tracks.failed (bind_of_error (hp.fail _))
    · rw [if_neg hcount, if_neg hcount, bind_assoc]
      refine Tracks.andThen hp (parameter_tracks hp) fun first r h q hq => ?_
      simp only [Bool.toNat_true] at h
      rw [bind_assoc]
      cases r with
      | nil =>
        refine .stay (v := false) (hq.accept_nil _) ?_
        exact closeParameters_tracks hq [first]
      | cons t rest =>
        dsimp only
        split
        next hcomma =>
          have hmore := (ih (count + 1) hq.tail).map (f := fun found => first :: found)
          simp only [bind_assoc] at hmore
          refine Tracks.past (hq.accept_symbol hcomma) ((hmore.congr (congrFun ?_ _)).mono ?_)
          · simp only [if_true, bind_assoc, pure_bind, closeParameters_cons]
            rfl
          · simp only [List.length_cons] at h
            omega
        next hcomma =>
          refine .stay (v := false) (hq.accept_no_symbol hcomma) ?_
          have hclose : Tracks (64 * s.length < depth + 1) _ _ _ := closeParameters_tracks hq [first]
          rw [Grammar.expectSymbol, Grammar.expect] at hclose
          split at hclose
          next hparen => rw [if_pos hparen]; exact hclose
          next hparen => rw [if_neg hparen]; exact hclose

theorem parameters_tracks (depth : Nat) (hp : At final s p) :
    Tracks (64 * s.length < depth) p (parameters depth) (Grammar.parameters final s) := by
  cases s with
  | nil => exact Follows.refuse (hp.check _) (parameterList_tracks depth 0 hp)
  | cons t rest =>
    rw [Grammar.parameters]
    split
    next ht =>
      refine Tracks.one ((bind_of_ok (hp.check_symbol ht)).trans ?_)
      exact bind_of_ok (hp.consume_eq (of_decide_eq_true ht) _)
    next ht => exact Follows.refuse (hp.check_no_symbol ht) (parameterList_tracks depth 0 hp)

theorem header_tracks (depth : Nat) (kind : RoutineKind) (hp : At final s p) :
    Tracks (64 * s.length < depth) p (header depth kind) (Grammar.header final kind s) := by
  refine consume_name_then
    (f := fun name => consume (.symbol .leftParen) (.routineParameters kind) >>= fun _ =>
      parameters depth >>= fun params => typeName? >>= fun result =>
        consume (.symbol .leftBrace) (.routineBody kind) >>= fun _ => pure (name, params, result))
    hp fun name r h q hq => ?_
  refine Tracks.andThen hq (consume_symbol hq _ _) fun _ r' h' q' hq' => ?_
  refine Tracks.andThen hq' ((parameters_tracks depth hq').mono (by omega))
    fun params r'' _ q'' hq'' => ?_
  refine Tracks.andThen hq'' (typeName?_tracks hq'') fun result r''' _ q''' hq''' => ?_
  exact (consume_symbol hq''' _ _).map

theorem superclass?_tracks (hp : At final s p) :
    Tracks enough p superclass? (Grammar.superclass? final s) := by
  cases s with
  | nil => exact Follows.refuse (hp.accept_nil _) Tracks.done
  | cons t rest =>
    rw [Grammar.superclass?]
    split
    next ht =>
      refine Tracks.take (hp.accept_symbol ht) ?_
      rw [Grammar.expectName, Outcome.map_map]
      simp only [fresh_bind]
      exact (consume_tracks hp.tail _ _).map
    next ht => exact Follows.refuse (hp.accept_no_symbol ht) Tracks.done

theorem classHeader_tracks (hp : At final s p) :
    Tracks enough p classHeader (Grammar.classHeader final s) := by
  refine consume_name_then
    (f := fun name => superclass? >>= fun superclass =>
      consume (.symbol .leftBrace) .classOpen >>= fun _ => pure (name, superclass))
    hp fun name r _ q hq => ?_
  refine Tracks.andThen hq (superclass?_tracks hq) fun superclass r' _ q' hq' => ?_
  exact (consume_symbol hq' _ _).map

/-! ## Simple statements -/

theorem expressionStatement_tracks (depth : Nat) (hp : At final s p) (hr : Ready final s) :
    Tracks (64 * s.length + 18 < depth) p (expressionStatement depth)
      (Grammar.expressionStatement final s) :=
  Tracks.andThen hp (expression_tracks depth hp hr) fun _ _ _ _ hq => (consume_symbol hq _ _).map

theorem expressionStatement_settles (depth : Nat) : Settles (expressionStatement depth) :=
  .bind fun _ => (Settles.consume (by decide)).map

theorem printStatement_tracks (depth : Nat) (hp : At final s p) (hr : Ready final s) :
    Tracks (64 * s.length + 18 < depth) p (printStatement depth) (Grammar.printStatement final s) :=
  Tracks.andThen hp (expression_tracks depth hp hr) fun _ _ _ _ hq => (consume_symbol hq _ _).map

/-- Where no token is left, no expression is found. -/
theorem expression_nil : Grammar.expression final [] = Grammar.reject final .expression [] := by
  simp [Grammar.expression, Grammar.operators, Grammar.operand, Grammar.unary, Grammar.suffixed,
    Grammar.call, Grammar.primary, Grammar.reject, Outcome.andThen]

theorem expressionUntil_tracks (depth : Nat) (close : Symbol) (cause : SyntaxCause)
    (hp : At final s p) (hr : Ready final s) :
    Tracks (64 * s.length + 18 < depth) p (expressionUntil depth close cause)
      (Grammar.expressionUntil final close cause s) := by
  have hmore : Tracks (64 * s.length + 18 < depth) p
      (expression depth >>= fun e => consume (.symbol close) cause >>= fun _ => pure (some e))
      ((Grammar.expression final s).andThen fun e r _ =>
        (Grammar.expectSymbol final close cause r).map fun _ => some e) :=
    Tracks.andThen hp (expression_tracks depth hp hr) fun _ _ _ _ hq => (consume_symbol hq _ _).map
  cases s with
  | nil =>
    rw [expression_nil] at hmore
    exact Follows.refuse (hp.check _) hmore
  | cons t rest =>
    rw [Grammar.expressionUntil]
    split
    next ht =>
      refine Tracks.one ((bind_of_ok (hp.check_symbol ht)).trans ?_)
      exact bind_of_ok (hp.consume_eq (of_decide_eq_true ht) _)
    next ht => exact Follows.refuse (hp.check_no_symbol ht) hmore

theorem expressionUntil_settles (depth : Nat) {close : Symbol} (cause : SyntaxCause)
    (hs : close ∉ [Symbol.numberWord, .stringWord, .booleanWord, .voidWord]) :
    Settles (expressionUntil depth close cause) := by
  refine .bind fun b => ?_
  split
  · exact (Settles.consume hs).map
  · exact .bind fun _ => (Settles.consume hs).map

theorem returnStatement_tracks (depth : Nat) (hp : At final (t :: rest) p)
    (ht : isValue t = false) :
    Tracks (64 * rest.length + 18 < depth) (p.past [t] []) (returnStatement depth)
      (Grammar.returnStatement final t.toName rest) :=
  .stay hp.previous_tail (expressionUntil_tracks depth _ _ hp.tail (hp.ready ht)).map

theorem condition_tracks (depth : Nat) (opening closing : SyntaxCause) (hp : At final s p) :
    Tracks (64 * s.length < depth) p (condition depth opening closing)
      (Grammar.condition final opening closing s) := by
  refine consume_symbol_then hp fun t r h ht hq => ?_
  refine Tracks.andThen hq.tail
    ((expression_tracks depth hq.tail (hq.ready (isValue_symbol ht (by decide)))).mono ?_)
    fun e r' _ q' hq' => (consume_symbol hq' _ _).map
  simp only [Bool.toNat_true] at h
  omega

theorem condition_settles (depth : Nat) (opening closing : SyntaxCause) :
    Settles (condition depth opening closing) :=
  .bind fun _ => .bind fun _ => (Settles.consume (by decide)).map

/-! ## Loops -/

theorem forInitializer_tracks (depth : Nat) (hp : At final s p) (hr : Ready final s) :
    Tracks (64 * s.length + 18 < depth) p (forInitializer depth) (Grammar.forInitializer final s) := by
  cases s with
  | nil =>
    exact Follows.refuse (hp.accept_nil _) (Follows.refuse (hp.accept_nil _)
      (expressionStatement_tracks depth hp hr).map)
  | cons t rest =>
    rw [Grammar.forInitializer]
    split
    next ht => exact Tracks.found hp (of_decide_eq_true ht)
    next hsemicolon =>
      refine Follows.refuse (hp.accept_no_symbol hsemicolon) ?_
      split
      next ht =>
        refine Tracks.take (hp.accept_symbol ht) (Tracks.map ?_)
        exact (varDeclaration_tracks depth hp.tail).mono (by simp only [List.length_cons]; omega)
      next ht =>
        exact Follows.refuse (hp.accept_no_symbol ht) (expressionStatement_tracks depth hp hr).map

theorem forInitializer_settles (depth : Nat) : Settles (forInitializer depth) := by
  refine .choose (by decide) (.bind fun b => ?_)
  split
  · exact (varDeclaration_settles depth).map
  · exact (expressionStatement_settles depth).map

theorem forClauses_tracks (depth : Nat) (hp : At final s p) :
    Tracks (64 * s.length < depth) p (forClauses depth) (Grammar.forClauses final s) := by
  refine consume_symbol_then hp fun t r h ht hq => ?_
  simp only [Bool.toNat_true] at h
  refine Tracks.andThen_of hq.tail ((forInitializer_tracks depth hq.tail
    (hq.ready (isValue_symbol ht (by decide)))).mono (by omega)) fun initializer r' h' q' hx hq' => ?_
  refine Tracks.andThen_of hq' ((expressionUntil_tracks depth _ _ hq'
    (hq'.ready_of_settled (forInitializer_settles depth hx))).mono (by omega))
    fun condition r'' h'' q'' hx' hq'' => ?_
  exact ((expressionUntil_tracks depth _ _ hq'' (hq''.ready_of_settled
    (expressionUntil_settles depth _ (by decide) hx'))).mono (by omega)).map

theorem forClauses_settles (depth : Nat) : Settles (forClauses depth) :=
  .bind fun _ => .bind fun _ => .bind fun _ => (expressionUntil_settles depth _ (by decide)).map

end ClassScript.Parser
