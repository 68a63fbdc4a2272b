import ClassScript.Proofs.CheckedClasses
import ClassScript.Proofs.GlobalFrames
import ClassScript.Proofs.Typed

/-!
# Checked programs are typed

A program that passes the check is typed under every plan that knows the classes in the end, with all
their members (`Plan.Covers` says what else the plan must know of what the check meets). Where the
check has met fewer classes and fields than the plan knows, types stay (`ClassTable.Extends`).
-/

set_option autoImplicit false

namespace ClassScript

open Typing ClassTable

/-- The plan knows what the check meets: the distance of a use of a name is that at which the check
finds the name, a name may be bound to its type, and a field that is entered again keeps its type. Under
a sealed plan the initial values of fields do not use the object. -/
def Plan.Covers (P : Plan) : Moment → Prop
  | .used u => u.use.id < P.uses ∧
      (¬ u.InOwnInitializer → P.distance u.use.id = u.scope.depth? u.use.name.text) ∧
      (u.InOwnInitializer → P.strict = false ∧ P.distance u.use.id = some 0)
  | .bound name ty scope => P.Binds scope name ty
  | .entered id d ty t => (∀ old, t.ownField? id d.name.text = some old → old.erase = ty.erase) ∧
      (P.sealed = true → d.plain = true)

/-! ## Where `super` is found -/

/-- The scope that binds `super` is the one around that which binds `this`. -/
structure TypeScope.Supers (t : ClassTable) (Γ : TypeScope) : Prop where
  globals : Γ.globals.get? "super" = none
  locals : ∀ k b ty, Γ.locals[k]? = some b → b.get? "super" = some ty →
    ∃ d p inner c, k = d + 1 ∧ ty = .object p ∧ Γ.locals[d]? = some inner ∧
      inner.get? "this" = some (.object c) ∧ t.isSubclass c p = true

namespace TypeScope.Supers

variable {t : ClassTable} {Γ : TypeScope}

theorem define (h : Γ.Supers t) {name : Name} (hn : name.Free) (ty : Ty) :
    (Γ.define name.text ty).Supers t := by
  have hsuper (b : Bindings Ty) : (b.insert name.text ty).get? "super" = b.get? "super" :=
    b.get?_insert_of_ne ty hn.ne_super
  have hthis (b : Bindings Ty) : (b.insert name.text ty).get? "this" = b.get? "this" :=
    b.get?_insert_of_ne ty hn.ne_this
  obtain ⟨globals, locals⟩ := Γ
  cases locals with
  | nil => exact ⟨(hsuper globals).trans h.globals, h.locals⟩
  | cons head outer =>
    refine ⟨h.globals, fun k b υ hk hb => ?_⟩
    -- The head keeps what it says of both words.
    have hkeep (k : Nat) (b : Bindings Ty)
        (hk : (head.insert name.text ty :: outer)[k]? = some b) :
        ∃ b', (head :: outer)[k]? = some b' ∧ b.get? "super" = b'.get? "super" := by
      cases k with
      | zero =>
        cases hk
        exact ⟨head, rfl, hsuper head⟩
      | succ k => exact ⟨b, hk, rfl⟩
    obtain ⟨b', hk', he⟩ := hkeep k b hk
    obtain ⟨d, p, inner, c, rfl, rfl, hd, hinner, hsub⟩ := h.locals k b' υ hk' (he ▸ hb)
    cases d with
    | zero =>
      cases hd
      exact ⟨0, p, _, c, rfl, rfl, rfl, (hthis head).trans hinner, hsub⟩
    | succ d => exact ⟨d + 1, p, inner, c, rfl, rfl, hd, hinner, hsub⟩

theorem enter (h : Γ.Supers t) {b : Bindings Ty} (hb : b.get? "super" = none) :
    (Γ.enter b).Supers t := by
  refine ⟨h.globals, fun k b' ty hk hty => ?_⟩
  cases k with
  | zero =>
    cases hk
    rw [hb] at hty
    cases hty
  | succ k =>
    obtain ⟨d, p, inner, c, rfl, rfl, hd, hinner, hsub⟩ := h.locals k b' ty hk hty
    exact ⟨d + 1, p, inner, c, rfl, rfl, hd, hinner, hsub⟩

theorem enterClass (h : Γ.Supers t) {id : ClassId} {parent : Option ClassId}
    (hp : ∀ p, parent = some p → t.isSubclass id p = true) :
    (enterClass id parent Γ).Supers t := by
  have hthis : (Bindings.single "this" (Ty.object id)).get? "super" = none := by
    rw [Bindings.get?_single, if_neg (by decide)]
  cases parent with
  | none => exact h.enter hthis
  | some p =>
    refine ⟨h.globals, fun k b ty hk hty => ?_⟩
    match k with
    | 0 =>
      cases hk
      rw [hthis] at hty
      cases hty
    | 1 =>
      cases hk
      rw [Bindings.get?_single, if_pos rfl] at hty
      cases hty
      exact ⟨0, p, _, id, rfl, rfl, rfl, by rw [Bindings.get?_single, if_pos rfl], hp p rfl⟩
    | k + 2 =>
      obtain ⟨d, p, inner, c, rfl, rfl, hd, hinner, hsub⟩ := h.locals k b ty hk hty
      exact ⟨d + 2, p, inner, c, rfl, rfl, hd, hinner, hsub⟩

theorem enterParams (h : Γ.Supers t) {params : List Param} (hp : ∀ p ∈ params, p.name.Free)
    (types : List Ty) : (Γ.enter (paramScope params types)).Supers t := by
  refine h.enter ?_
  cases hget : (paramScope params types).get? "super" with
  | none => rfl
  | some ty =>
    obtain ⟨p, hparam, hx⟩ := List.mem_map.1 (List.of_mem_zip (Bindings.get?_ofList hget)).1
    exact absurd hx (hp p hparam).ne_super

end TypeScope.Supers

/-! ## Expressions -/

namespace Typing

variable {P : Plan} {t : ClassTable} {scope : TypeScope} {init : Option Name}

theorem arguments_ok {line : Nat} {callee : String} {position : Nat} {params args : List Ty}
    (hlen : params.length = args.length)
    (h : arguments t line callee position params args = .ok ()) :
    List.Forall₂ (fun p a => t.accepts p a = true) params args := by
  induction params generalizing position args with
  | nil =>
    cases args with
    | nil => exact .nil
    | cons a args => cases hlen
  | cons p params ih =>
    cases args with
    | nil => cases hlen
    | cons a args =>
      unfold arguments at h
      split at h
      next ha => exact .cons ha (ih (by simpa using hlen) h)
      · cases h

theorem checkArguments_ok {line : Nat} {callee : String} {params args : List Ty}
    (h : checkArguments t line callee params args = .ok ()) :
    List.Forall₂ (fun p a => t.accepts p a = true) params args := by
  simp only [checkArguments, except_bind_ok, require_ok, beq_iff_eq] at h
  obtain ⟨-, hlen, ha⟩ := h
  exact arguments_ok hlen ha

/-- Operators take what says the same alike, and more classes change nothing. -/
theorem binary_extends (hext : t.Extends P.classes) {operator : Token} {l r ty : Ty}
    (h : binary t operator l r = .ok ty) :
    binary P.classes operator l.erase r.erase = .ok ty.erase := by
  unfold binary at h ⊢
  dsimp only at h ⊢
  split at h
  · split at h <;> cases h <;> rfl
  · split at h <;> cases h
    rfl
  · split at h <;> cases h <;> rfl
  · split at h <;> cases h <;> rfl
  · split at h
    next hsame =>
      cases h
      simp only [Bool.or_eq_true, Ty.same_iff] at hsame
      rw [if_pos]
      · rfl
      · simp only [Bool.or_eq_true, Ty.same_iff, Ty.erase_erase, accepts_erase]
        rcases hsame with (he | ha) | ha
        · exact .inl (.inl he)
        · exact .inl (.inr (hext.accepts ha))
        · exact .inr (hext.accepts ha)
    · cases h
  · cases h

/-- A use of a name that does not assign to the variable whose initial value it stands in. -/
theorem use_covered {o : Occurrence NodeId} {ty : Ty} (h : P.Covers (.used ⟨o, scope, init⟩))
    (hget : scope.get? o.name.text = some ty) (hword : o.name.text ≠ "super")
    (hown : ¬ CheckedUse.InOwnInitializer ⟨o, scope, init⟩) :
    P.Use scope o.id o.name.text ty :=
  ⟨hget, h.2.1 hown, h.1, hword⟩

theorem not_own_of_kind {o : Occurrence NodeId} (h : o.kind ≠ .assign) :
    ¬ CheckedUse.InOwnInitializer ⟨o, scope, init⟩ :=
  fun hown => h hown.1

/-- What the checks of the parts of a program share: the plan knows more classes, and what is found in
a scope has a known type. -/
structure Checked (P : Plan) (t : ClassTable) (scope : TypeScope) : Prop where
  classes : t.Extends P.classes
  members : t.MembersKnown
  known : scope.Known t.nextId
  supers : scope.Supers P.classes

theorem checked_of_good {st : TypeState} (hg : st.Good)
    (hext : st.classes.Extends P.classes) (hsup : st.scope.Supers P.classes) :
    Checked P st.classes st.scope :=
  ⟨hext, hg.classes.members, hg.scope, hsup⟩

/-- The uses of names are covered. -/
def UsesCovered (P : Plan) (scope : TypeScope) (init : Option Name)
    (uses : List (Occurrence NodeId)) : Prop :=
  ∀ o ∈ uses, P.Covers (.used ⟨o, scope, init⟩)

namespace Checked

variable (h : Checked P t scope)
include h

theorem accepts {a b : Ty} (hacc : t.accepts a b = true) : P.classes.accepts a b.erase = true := by
  rw [← accepts_erase, Ty.erase_erase, accepts_erase]
  exact h.classes.accepts hacc

/-- The method of a superclass is found where the check has found it. -/
theorem superMethod {id : NodeId} {keyword method : Name} {ty : Ty} (hk : keyword.text = "super")
    (hc : P.Covers (.used ⟨⟨.super, id, keyword⟩, scope, init⟩))
    (ht : superMethod t scope keyword method = .ok ty) :
    Expr.Typed P scope init (.super id keyword method) ty.erase := by
  obtain ⟨p, s, hget, hm, rfl⟩ := superMethod_ok.1 ht
  have hdistance : P.distance id = scope.depth? "super" := by
    rw [← hk]
    exact hc.2.1 (not_own_of_kind (by simp))
  have hin := scope.typeIn?_depth? hget
  refine .super (p := p) (s := s) ⟨hc.1, ?_⟩ (h.classes.findMethod? P.coherent hm)
  cases hd : scope.depth? "super" with
  | none =>
    rw [hd] at hin
    have hnone := h.supers.globals
    rw [show scope.globals.get? "super" = some (Ty.object p) from hin] at hnone
    cases hnone
  | some k =>
    rw [hd] at hin
    obtain ⟨b, hb, hsuper⟩ := Option.bind_eq_some_iff.1 hin
    obtain ⟨d, q, inner, c, rfl, he, hinner, hthis, hsub⟩ := h.supers.locals k b _ hb hsuper
    cases he
    exact ⟨d, b, inner, c, hdistance.trans hd, hb, hsuper, hinner, hthis, hsub⟩

end Checked

theorem increment_inv (operand : Expr NodeId) {operator : Token} {ty : Ty} (hs : operand.Shaped)
    (hu : UsesCovered P scope init operand.occurrences)
    (ht : increment t scope operand operator = .ok ty) :
    ∃ id name, operand = .variable id name ∧ ty = .number ∧ name.Free ∧
      P.Use scope id name.text .number := by
  obtain ⟨id, name, got, rfl, hget, hsame, rfl⟩ := increment_ok.1 ht
  have hfree : name.Free := hs
  obtain rfl : got = .number := by simpa [Ty.same_iff, Ty.erase] using hsame
  have hc := hu _ (List.mem_singleton_self _)
  exact ⟨id, name, rfl, rfl, hfree,
    use_covered hc hget hfree.ne_super (not_own_of_kind (by simp))⟩

theorem isSymbol_minus {operator : Token}
    (h : Grammar.prefixSymbols.any operator.isSymbol = true) (hi : isIncrement operator = false)
    (hb : operator.isSymbol .bang = false) : operator.isSymbol .minus = true := by
  simp only [isIncrement, Bool.or_eq_false_iff] at hi
  simpa [Grammar.prefixSymbols, hi.1, hi.2, hb] using h

mutual

/-- An expression that passes the check has its type. -/
theorem expr_typed (h : Checked P t scope) : ∀ (e : Expr NodeId) {ty : Ty}, e.Shaped →
    UsesCovered P scope init e.occurrences → typeOf t scope e = .ok ty →
    e.Typed P scope init ty.erase
  | .literal value, ty, _, _, ht => by
    cases ht
    rw [show (literal value).erase = literal value by cases value <;> rfl]
    exact .literal
  | .grouping inner, ty, hs, hu, ht => .grouping (expr_typed h inner hs hu ht)
  | .unary operator operand, ty, hs, hu, ht => by
    rcases typeOf_unary.1 ht with ⟨ho, hi⟩ | ⟨hi, got, hg, ⟨hb, rfl⟩ | ⟨hb, hn, rfl⟩⟩
    · obtain ⟨id, name, rfl, rfl, hfree, huse⟩ := increment_inv operand hs.2 hu hi
      exact .change ho hfree huse
    · exact .not hb (expr_typed h operand hs.2 hu hg)
    · have he := expr_typed h operand hs.2 hu hg
      rw [(Ty.same_iff _ _).1 hn] at he
      exact .negate (isSymbol_minus hs.1 hi hb) he
  | .suffixed operand operator, ty, hs, hu, ht => by
    obtain ⟨id, name, rfl, rfl, hfree, huse⟩ := increment_inv operand hs hu ht
    exact .suffixed hfree huse
  | .binary left operator right, ty, hs, hu, ht => by
    obtain ⟨l, r, hl, hr, hb⟩ := typeOf_binary.1 ht
    obtain ⟨hul, hur⟩ := List.forall_mem_append.1 hu
    exact .binary (expr_typed h left hs.1 hul hl) (expr_typed h right hs.2 hur hr)
      (binary_extends h.classes hb)
  | .logical left operator right, ty, hs, hu, ht => by
    obtain ⟨l, r, hl, hr, hb, rfl⟩ := typeOf_logical.1 ht
    obtain ⟨hul, hur⟩ := List.forall_mem_append.1 hu
    obtain ⟨hlb, hrb⟩ := Bool.and_eq_true_iff.1 hb
    have hleft := expr_typed h left hs.1 hul hl
    have hright := expr_typed h right hs.2 hur hr
    rw [(Ty.same_iff _ _).1 hlb] at hleft
    rw [(Ty.same_iff _ _).1 hrb] at hright
    exact .logical hleft hright
  | .variable id name, ty, hs, hu, ht => by
    have hfree : name.Free := hs
    exact .variable (use_covered (hu _ (List.mem_singleton_self _)) (lookUp_ok.1 ht)
      hfree.ne_super (not_own_of_kind (by simp)))
  | .assign id name value, ty, hs, hu, ht => by
    obtain ⟨hget, got, hg, hacc⟩ := typeOf_assign.1 ht
    obtain ⟨hc, huv⟩ := List.forall_mem_cons.1 hu
    have hvalue := expr_typed h value hs.2 huv hg
    by_cases hown : CheckedUse.InOwnInitializer ⟨⟨.assign, id, name⟩, scope, init⟩
    · obtain ⟨hloose, hdistance⟩ := hc.2.2 hown
      obtain ⟨-, x, hx, hname⟩ := hown
      exact .assignOwn ⟨hloose, ⟨x, hx, hname.symm⟩, hdistance, hc.1⟩ hvalue
    · exact .assign hs.1 (use_covered hc hget hs.1.ne_super hown) hvalue (h.accepts hacc)
  | .call callee line args, ty, hs, hu, ht => by
    obtain ⟨f, tys, hf, hargs, hc⟩ := typeOf_call.1 ht
    obtain ⟨huf, hua⟩ := List.forall_mem_append.1 hu
    have hcallee := expr_typed h callee hs.1 huf hf
    have htyped := exprs_typed h args hs.2 hua hargs
    have haccepted {params : List Ty}
        (hp : List.Forall₂ (fun p a => t.accepts p a = true) params tys) :
        List.Forall₂ (fun p a => P.classes.accepts p a = true) params (Ty.eraseAll tys) := by
      rw [Ty.eraseAll_eq, List.forall₂_map_right_iff]
      exact hp.imp fun _ _ ha => h.accepts ha
    rcases call_inv.1 hc with ⟨c, rfl, rfl, ha⟩ | ⟨name, params, rfl, ha⟩
    · have hlt : c < t.nextId := typeOf_known h.members h.known callee hf
      refine .construct hcallee htyped ?_
      rw [h.classes.constructorParams hlt]
      exact haccepted (checkArguments_ok ha)
    · refine .call hcallee htyped ?_
      rw [Ty.eraseAll_eq, List.forall₂_map_left_iff]
      refine (haccepted (checkArguments_ok ha)).imp fun p a hpa => ?_
      rw [← accepts_erase, Ty.erase_erase, accepts_erase]
      exact hpa
  | .get object name, ty, hs, hu, ht => by
    obtain ⟨o, ho, hproperty⟩ := typeOf_get.1 ht
    obtain ⟨c, rfl, hp⟩ := property_inv.1 hproperty
    obtain ⟨ty', hp', he⟩ := h.classes.property? P.coherent hp
    rw [← he]
    exact .get (expr_typed h object hs hu ho) hp'
  | .set object name value, ty, hs, hu, ht => by
    obtain ⟨o, got, ho, hfield, hg, hacc⟩ := typeOf_set.1 ht
    obtain ⟨huo, huv⟩ := List.forall_mem_append.1 hu
    obtain ⟨c, rfl, hf⟩ := field_inv.1 hfield
    obtain ⟨ty', hf', he⟩ := h.classes.findField? P.coherent hf
    have hacc' : P.classes.accepts ty' got.erase = true := by
      rw [← accepts_erase, he, accepts_erase]
      exact h.accepts hacc
    rw [← he]
    exact .set (expr_typed h object hs.1 huo ho) hf' (expr_typed h value hs.2 huv hg) hacc'
  | .this id keyword, ty, hs, hu, ht => by
    have hk : keyword.text = "this" := hs
    have hget : scope.get? "this" = some ty := lookUp_ok.1 ht
    exact .this (use_covered (hu _ (List.mem_singleton_self _)) (by rw [hk]; exact hget)
      (by rw [hk]; decide) (not_own_of_kind (by simp)))
  | .super id keyword method, ty, hs, hu, ht =>
    h.superMethod hs (hu _ (List.mem_singleton_self _)) ht
termination_by structural e => e

theorem exprs_typed (h : Checked P t scope) : ∀ (es : List (Expr NodeId)) {tys : List Ty},
    Expr.ShapedAll es → UsesCovered P scope init (Expr.occurrencesAll es) →
    typesOf t scope es = .ok tys → Expr.TypedAll P scope init es (Ty.eraseAll tys)
  | [], tys, _, _, ht => by
    cases ht
    exact .nil
  | e :: rest, tys, hs, hu, ht => by
    obtain ⟨ty, others, he, hr, rfl⟩ := typesOf_cons.1 ht
    obtain ⟨hue, hur⟩ := List.forall_mem_append.1 hu
    exact .cons (expr_typed h e hs.1 hue he) (exprs_typed h rest hs.2 hur hr)
termination_by structural es => es

end

/-! ## Declarations -/

theorem exprOption_typed (h : Checked P t scope) {e : Option (Expr NodeId)} {initial : Option Ty}
    (hs : Expr.ShapedOption e) (hu : UsesCovered P scope init (Expr.occurrencesOption e))
    (ht : initialType t scope e = .ok initial) :
    Expr.TypedOption P scope init e (initial.getD .nil).erase := by
  rcases initialType_ok.1 ht with ⟨rfl, rfl⟩ | ⟨e', ty, rfl, rfl, hty⟩
  · rfl
  · exact expr_typed h e' hs hu hty

/-- The type of a variable accepts that of its initial value, or `nil` without one. -/
theorem declaredType_accepts {d : VarDecl NodeId} {ty : Ty}
    (h : declaredType d t scope = .ok ty) :
    ∃ initial, initialType t scope d.initializer = .ok initial ∧
      t.accepts ty (initial.getD .nil) = true := by
  obtain ⟨declared, initial, hn, hi, hv⟩ := declaredType_ok.1 h
  refine ⟨initial, hi, ?_⟩
  rcases variableType_cases hv with ⟨rfl, ⟨got, rfl, hacc⟩ | ⟨rfl, hreq⟩⟩ | ⟨-, rfl⟩
  · exact hacc
  · have hnamed := namedTypeOption_isNamed hn
    cases ty with
    | void => rfl
    | object id => rfl
    | number | string | boolean => cases hreq
    | nil | function | classObject => cases hnamed
  · exact accepts_of_erase rfl

/-- Fields that are entered extend the classes, if a field that is entered again keeps its type. -/
theorem enterFields_extends {id : ClassId} {fields : List (VarDecl NodeId)} {st st' : TypeState}
    (hc : enterFields id fields st = .ok () st')
    (hm : ∀ x ∈ fieldMoments id fields st, P.Covers x) : st.classes.Extends st'.classes := by
  induction fields generalizing st with
  | nil =>
    obtain ⟨-, rfl⟩ := pure_ok.1 hc
    exact .refl _
  | cons d rest ih =>
    obtain ⟨ty, hty, hr⟩ := enterFields_cons.1 hc
    rw [fieldMoments_cons hty] at hm
    obtain ⟨-, hm⟩ := List.forall_mem_append.1 hm
    obtain ⟨hentered, hrest⟩ := List.forall_mem_cons.1 hm
    exact (extends_addField st.classes id d.name.text hentered.1).trans (ih hr hrest)

theorem covers_usesIn {uses : List (Occurrence NodeId)}
    (h : ∀ x ∈ usesIn scope init uses, P.Covers x) : UsesCovered P scope init uses :=
  fun _ ho => h _ (List.mem_map_of_mem ho)

/-- The initial values of the fields of a class fit the types of the fields. -/
theorem fields_typed {id : ClassId} {fields : List (VarDecl NodeId)} {st st' : TypeState}
    (hid : id < st.classes.nextId) (hmembers : st.classes.MembersKnown)
    (hknown : st.scope.Known st.classes.nextId) (hsupers : st.scope.Supers P.classes)
    (hs : ∀ d ∈ fields, d.Shaped) (hc : enterFields id fields st = .ok () st')
    (hm : ∀ x ∈ fieldMoments id fields st, P.Covers x) (hext : st'.classes.Extends P.classes) :
    ∀ d ∈ fields, d.FieldTyped P st.scope id ∧ (P.sealed = true → d.plain = true) := by
  induction fields generalizing st with
  | nil => exact fun _ h => nomatch h
  | cons d rest ih =>
    have hhere := (enterFields_extends hc hm).trans hext
    obtain ⟨ty, hty, hr⟩ := enterFields_cons.1 hc
    obtain ⟨hdeclared, -⟩ := fieldType_ok.1 hty
    rw [fieldMoments_cons hty] at hm
    obtain ⟨huses, hm⟩ := List.forall_mem_append.1 hm
    obtain ⟨hentered, hrest⟩ := List.forall_mem_cons.1 hm
    have hnext := (enterFields_extends hr hrest).trans hext
    refine List.forall_mem_cons.2 ⟨?_, ?_⟩
    · have hchecked : Checked P st.classes st.scope := ⟨hhere, hmembers, hknown, hsupers⟩
      obtain ⟨initial, hi, hacc⟩ := declaredType_accepts hdeclared
      have hown : (st.classes.addField id d.name.text ty).ownField? id d.name.text = some ty := by
        rw [ownField?_addField, if_pos ⟨rfl, hid, rfl⟩]
      obtain ⟨ty', hty', he⟩ := hnext.fields id d.name.text ty hown
      refine ⟨⟨ty', _, ?_, exprOption_typed hchecked (hs d (List.mem_cons_self ..)).2
        (covers_usesIn huses) hi, ?_⟩, hentered.2⟩
      · rw [P.coherent.findField?_eq, hty', Option.some_or]
      · rw [← accepts_erase, he, accepts_erase]
        exact hchecked.accepts hacc
    · have hmembers' := hmembers.addField (declaredType_known hmembers hknown hdeclared) id
        d.name.text
      refine @ih ⟨st.classes.addField id d.name.text ty, st.scope⟩ ?_ hmembers' ?_ hsupers
        (fun x hx => hs x (List.mem_cons_of_mem d hx)) hr hrest
      · simpa using hid
      · simpa using hknown

/-- An initial value that may not use the object does not need to know it. -/
theorem field_scoped {Γ : TypeScope} {id : ClassId} {d : VarDecl NodeId} (hs : d.Shaped)
    (hplain : P.sealed = true → d.plain = true)
    (h : d.FieldTyped P (Γ.enter (.single "this" (.object id))) id) :
    d.FieldTyped P (Γ.enter (P.fieldScope id)) id := by
  unfold Plan.fieldScope
  split
  next hsealed =>
    obtain ⟨ty, τ, hf, he, hacc⟩ := h
    refine ⟨ty, τ, hf, ?_, hacc⟩
    have hall := List.all_eq_true.1 (hplain hsealed)
    cases hi : d.initializer with
    | none =>
      rw [hi] at he
      exact he
    | some e =>
      have hshaped : Expr.ShapedOption d.initializer := hs.2
      rw [hi] at he hall hshaped
      refine Expr.Typed.hide e (fun o ho => ?_) he
      have hkind : o.kind ≠ .this ∧ o.kind ≠ .super := by simpa using hall o ho
      have hspelled := Expr.Shaped.spelled e hshaped o ho
      refine ⟨hkind.1, hkind.2, ?_⟩
      have hfree : o.name.Free := by
        unfold Occurrence.Spelled at hspelled
        cases hk : o.kind with
        | this => exact absurd hk hkind.1
        | super => exact absurd hk hkind.2
        | «variable» => rwa [hk] at hspelled
        | assign => rwa [hk] at hspelled
      rw [Bindings.get?_single, if_neg hfree.ne_this.symm]
  next => exact h

/-! ## Classes -/

section

variable {decl : ClassDecl NodeId (Stmt NodeId)} {parent : Option ClassId}
  {signatures : List Signature} {st entered filled : TypeState}

theorem superclass_typed (hs : SuperclassRef.ShapedOption decl.superclass)
    (hu : UsesCovered P st.scope none (SuperclassRef.occurrences decl.superclass))
    (hp : superclassOf decl.name decl.superclass st.classes st.scope = .ok parent) :
    SuperclassRef.TypedOption P st.scope decl.superclass parent := by
  rcases superclassOf_ok.1 hp with ⟨hn, rfl⟩ | ⟨s, p, hsome, rfl, -, hget⟩
  · rw [hn]
    rfl
  · rw [hsome] at hs hu ⊢
    have hfree : s.name.Free := hs
    exact ⟨p, rfl, use_covered (hu _ (List.mem_singleton_self _)) hget hfree.ne_super
      (not_own_of_kind (by simp))⟩

variable (h : ClassEntered decl st parent signatures entered filled) (hg : st.Good)
  (hgrow : filled.classes.Grows P.classes)
include h hg hgrow

/-- The plan knows the ancestors of a class that was entered. -/
theorem entered_lineage : P.classes.lineage st.classes.nextId =
    st.classes.nextId :: P.classes.lineageOption parent := by
  rw [hgrow.lineage h.lt, h.filling.lineage]
  have hnew : (st.classes.add decl.name.text parent).lineage st.classes.nextId =
      st.classes.nextId :: st.classes.lineageOption parent := by
    simp [ClassTable.lineage, classes_add]
  rw [hnew]
  cases hp : parent with
  | none => rfl
  | some p =>
    have hold := h.older hg p hp
    have hsame : P.classes.lineage p = st.classes.lineage p := by
      rw [hgrow.lineage (Nat.lt_of_lt_of_le hold h.grows.size), h.grows.lineage hold]
    rw [ClassTable.lineageOption, ClassTable.lineageOption, hsame]

theorem entered_isSubclass (p : ClassId) (hp : parent = some p) :
    P.classes.isSubclass st.classes.nextId p = true := by
  rw [isSubclass_iff, entered_lineage h hg hgrow, hp]
  exact List.mem_cons_of_mem _ (P.classes.self_mem_lineage p)

/-- A class that was entered fits its declaration. -/
theorem entered_planned (hsupers : st.scope.Supers P.classes) (hfree : decl.name.Free)
    (hs : ∀ d ∈ decl.fields, d.Shaped)
    (hm : ∀ x ∈ fieldMoments st.classes.nextId decl.fields
      ⟨entered.classes, enterClass st.classes.nextId parent entered.scope⟩, P.Covers x) :
    decl.Planned P (st.scope.define decl.name.text (.classObject st.classes.nextId))
      st.classes.nextId parent signatures := by
  have hlt := h.lt
  constructor
  case name =>
    rw [hgrow.name hlt, h.name]
  case lineage => exact entered_lineage h hg hgrow
  case methods =>
    intro x
    rw [hgrow.ownMethod? hlt, h.filledMethod?, h.enteredMethod?]
  case fields =>
    intro d hd
    have hid : st.classes.nextId < entered.classes.nextId := by
      rw [h.methods_filling.size, nextId_add]
      exact Nat.lt_succ_self _
    have hsup : (enterClass st.classes.nextId parent entered.scope).Supers P.classes := by
      rw [h.scope]
      exact (hsupers.define hfree _).enterClass (entered_isSubclass h hg hgrow)
    obtain ⟨htyped, hplain⟩ := @fields_typed P _ decl.fields
      ⟨entered.classes, enterClass st.classes.nextId parent entered.scope⟩ filled hid (h.members hg)
      (h.membersScope_known hg) hsup hs h.fields hm hgrow.extends d hd
    dsimp only at htyped
    rw [h.scope, enterClass_eq] at htyped
    exact field_scoped (hs d hd) hplain htyped
  case declared =>
    intro x ty hx
    rw [hgrow.ownField? hlt] at hx
    exact h.declared hg hx

end

/-! ## Statements -/

theorem condition_typed (h : Checked P t scope) {keyword : String} {condition : Expr NodeId}
    (hs : condition.Shaped) (hu : UsesCovered P scope none condition.occurrences)
    (hc : checkCondition keyword condition t scope = .ok ()) :
    condition.Typed P scope none .boolean := by
  obtain ⟨got, hg, hsame⟩ := checkCondition_ok.1 hc
  have he := expr_typed h condition hs hu hg
  rwa [(Ty.same_iff _ _).1 hsame] at he

mutual

/-- A statement that passes the check is typed. -/
theorem stmt_typed : ∀ (s : Stmt NodeId) {returns : Ty} {st st' : TypeState}, s.Shaped → st.Good →
    st.scope.Supers P.classes → (∀ x ∈ stmtMoments returns s st, P.Covers x) →
    checkStmt returns s st = .ok () st' → st'.classes.Grows P.classes →
    s.Typed P returns st.scope st'.scope ∧ st'.scope.Supers P.classes
  | .expression value, returns, st, st', hs, hg, hsup, hm, hc, hgrows => by
    obtain ⟨⟨ty, hty⟩, rfl⟩ := checkStmt_expression.1 hc
    have hchecked := checked_of_good hg hgrows.extends hsup
    exact ⟨.expression (expr_typed hchecked value hs (covers_usesIn hm) hty), hsup⟩
  | .print value, returns, st, st', hs, hg, hsup, hm, hc, hgrows => by
    obtain ⟨⟨ty, hty⟩, rfl⟩ := checkStmt_print.1 hc
    have hchecked := checked_of_good hg hgrows.extends hsup
    exact ⟨.print (expr_typed hchecked value hs (covers_usesIn hm) hty), hsup⟩
  | .var decl, returns, st, st', hs, hg, hsup, hm, hc, hgrows => by
    obtain ⟨ty, hty, rfl⟩ := checkStmt_var.1 hc
    obtain ⟨initial, hi, hacc⟩ := declaredType_accepts hty
    have hchecked := checked_of_good hg hgrows.extends hsup
    rw [var_moments hty] at hm
    obtain ⟨huses, hbound⟩ := List.forall_mem_append.1 hm
    exact ⟨.var (exprOption_typed hchecked hs.2 (covers_usesIn huses) hi) (hchecked.accepts hacc)
      (hbound _ (List.mem_singleton_self _)), hsup.define hs.1 ty⟩
  | .block body, returns, st, st', hs, hg, hsup, hm, hc, hgrows => by
    obtain ⟨inner, hi, rfl⟩ := checkStmt_block.1 hc
    have hin := good_enter hg (b := .empty) (by simp)
    obtain ⟨hbody, -⟩ := stmts_typed body hs hin (hsup.enter rfl) hm hi hgrows
    exact ⟨.block hbody, hsup⟩
  | .ifThen condition thenBranch, returns, st, st', hs, hg, hsup, hm, hc, hgrows => by
    obtain ⟨hcond, ht⟩ := checkStmt_ifThen.1 hc
    have hchecked := checked_of_good hg ((checkStmt_good thenBranch hg ht).2.trans hgrows).extends hsup
    obtain ⟨huses, hthen⟩ := List.forall_mem_append.1 hm
    obtain ⟨htyped, -⟩ := stmt_typed thenBranch hs.2.1 hg hsup hthen ht hgrows
    rw [checkStmt_branch thenBranch hs.2.1 hs.2.2 ht] at htyped ⊢
    exact ⟨.ifThen (condition_typed hchecked hs.1 (covers_usesIn huses) hcond) htyped, hsup⟩
  | .ifElse condition thenBranch elseBranch, returns, st, st', hs, hg, hsup, hm, hc, hgrows => by
    obtain ⟨hcond, mid, ht, he⟩ := checkStmt_ifElse.1 hc
    obtain ⟨hmid, hgrow⟩ := checkStmt_good thenBranch hg ht
    have hmidgrows := (checkStmt_good elseBranch hmid he).2.trans hgrows
    have hchecked := checked_of_good hg (hgrow.trans hmidgrows).extends hsup
    rw [ifElse_moments ht] at hm
    obtain ⟨hm, helse⟩ := List.forall_mem_append.1 hm
    obtain ⟨huses, hthen⟩ := List.forall_mem_append.1 hm
    obtain ⟨hfirst, hsupmid⟩ := stmt_typed thenBranch hs.2.1.1 hg hsup hthen ht hmidgrows
    obtain ⟨hsecond, -⟩ := stmt_typed elseBranch hs.2.2.1 hmid hsupmid helse he hgrows
    have hscope := checkStmt_branch thenBranch hs.2.1.1 hs.2.1.2 ht
    rw [checkStmt_branch elseBranch hs.2.2.1 hs.2.2.2 he] at hsecond ⊢
    rw [hscope] at hfirst hsecond ⊢
    exact ⟨.ifElse (condition_typed hchecked hs.1 (covers_usesIn huses) hcond) hfirst hsecond,
      hsup⟩
  | .whileLoop condition body, returns, st, st', hs, hg, hsup, hm, hc, hgrows => by
    obtain ⟨hcond, hb⟩ := checkStmt_whileLoop.1 hc
    have hchecked := checked_of_good hg ((checkStmt_good body hg hb).2.trans hgrows).extends hsup
    obtain ⟨huses, hbody⟩ := List.forall_mem_append.1 hm
    obtain ⟨htyped, -⟩ := stmt_typed body hs.2.1 hg hsup hbody hb hgrows
    rw [checkStmt_branch body hs.2.1 hs.2.2 hb] at htyped ⊢
    exact ⟨.whileLoop (condition_typed hchecked hs.1 (covers_usesIn huses) hcond) htyped, hsup⟩
  | .function decl, returns, st, st', hs, hg, hsup, hm, hc, hgrows => by
    obtain ⟨s, hsig, hr⟩ := checkStmt_function.1 hc
    have hin := good_define hg (x := decl.name.text) (signature_known hsig _)
    have hfree : decl.name.Free := by
      obtain ⟨name, params, result, body⟩ := decl
      exact hs.1
    have hsup' := hsup.define hfree s.ty
    rw [function_moments hsig] at hm
    obtain ⟨hbound, hm⟩ := List.forall_mem_cons.1 hm
    have hroutine := routine_typed decl hs hin hsup' ⟨_, hsig⟩ hm hr hgrows
    obtain ⟨inner, -, -, rfl⟩ := checkRoutine_ok.1 hr
    exact ⟨.function hbound hroutine, hsup'⟩
  | .returnWith keyword value, returns, st, st', hs, hg, hsup, hm, hc, hgrows => by
    obtain ⟨hr, rfl⟩ := checkStmt_returnWith.1 hc
    obtain ⟨initial, hi, hacc⟩ := checkReturn_ok.1 hr
    have hchecked := checked_of_good hg hgrows.extends hsup
    exact ⟨.returnWith (exprOption_typed hchecked hs (covers_usesIn hm) hi)
      (hchecked.accepts hacc), hsup⟩
  | .classDecl ⟨name, superclass, fields, methods⟩, returns, st, st', hs, hg, hsup, hm, hc,
      hgrows => by
    obtain ⟨parent, signatures, entered, filled, hclass⟩ := checkStmt_classDecl.1 hc
    have hentered := hclass.entered
    have hfilled := hclass.entered.good hg
    obtain ⟨last, hr, rfl⟩ := hclass.routines
    have hgrowsFilled := (checkRoutines_good methods hfilled hclass.signed hr).2.trans hgrows
    have hchecked := checked_of_good hg (hentered.grows.trans hgrowsFilled).extends hsup
    have hsup' := hsup.define hs.1 (.classObject st.classes.nextId)
    have hinner : filled.scope = enterClass st.classes.nextId parent
        (st.scope.define name.text (.classObject st.classes.nextId)) := by
      rw [enterFields_scope hentered.fields, hentered.scope]
    have hsupInner : filled.scope.Supers P.classes := by
      rw [hinner]
      exact hsup'.enterClass (entered_isSubclass hentered hg hgrowsFilled)
    rw [hclass.moments] at hm
    obtain ⟨huses, hm⟩ := List.forall_mem_append.1 hm
    obtain ⟨hbound, hm⟩ := List.forall_mem_cons.1 hm
    obtain ⟨hfields, hmethods⟩ := List.forall_mem_append.1 hm
    have hroutines := routines_typed methods hs.2.2.2 hfilled hsupInner hclass.signed hmethods hr
      hgrows
    rw [hinner] at hroutines
    rw [show (⟨last.classes, entered.scope⟩ : TypeState).scope =
      st.scope.define name.text (.classObject st.classes.nextId) from hentered.scope]
    exact ⟨.classDecl hbound (superclass_typed hs.2.1 (covers_usesIn huses) hentered.superclass)
      (entered_planned hentered hg hgrowsFilled hsup hs.1 hs.2.2.1 hfields) hroutines, hsup'⟩
termination_by structural s => s

theorem stmts_typed : ∀ (ss : List (Stmt NodeId)) {returns : Ty} {st st' : TypeState},
    Stmt.ShapedAll ss → st.Good → st.scope.Supers P.classes →
    (∀ x ∈ stmtsMoments returns ss st, P.Covers x) → checkStmts returns ss st = .ok () st' →
    st'.classes.Grows P.classes →
    Stmt.TypedAll P returns st.scope ss st'.scope ∧ st'.scope.Supers P.classes
  | [], returns, st, st', _, _, hsup, _, hc, _ => by
    obtain rfl := checkStmts_nil.1 hc
    exact ⟨.nil, hsup⟩
  | s :: rest, returns, st, st', hs, hg, hsup, hm, hc, hgrows => by
    obtain ⟨mid, hfirst, hrest⟩ := checkStmts_cons.1 hc
    obtain ⟨hmid, -⟩ := checkStmt_good s hg hfirst
    have hmidgrows := (checkStmts_good rest hmid hrest).2.trans hgrows
    rw [cons_moments hfirst] at hm
    obtain ⟨hms, hmr⟩ := List.forall_mem_append.1 hm
    obtain ⟨htyped, hsupmid⟩ := stmt_typed s hs.1 hg hsup hms hfirst hmidgrows
    obtain ⟨hothers, hsup'⟩ := stmts_typed rest hs.2 hmid hsupmid hmr hrest hgrows
    exact ⟨.cons htyped hothers, hsup'⟩
termination_by structural ss => ss

theorem routine_typed : ∀ (d : FunctionDecl (Stmt NodeId)) {s : Signature} {st st' : TypeState},
    Stmt.ShapedRoutine d → st.Good → st.scope.Supers P.classes →
    (∃ scope, signature d scope = .ok s) → (∀ x ∈ routineMoments s d st, P.Covers x) →
    checkRoutine s d st = .ok () st' → st'.classes.Grows P.classes →
    Stmt.TypedRoutine P st.scope s d
  | ⟨name, params, result, body⟩, s, st, st', hs, hg, hsup, hsig, hm, hc, hgrows => by
    obtain ⟨inner, hi, hpaths, rfl⟩ := checkRoutine_ok.1 hc
    obtain ⟨scope, hsig⟩ := hsig
    have hparams := (signature_ok.1 hsig).2.1
    have hin := good_enter hg (paramScope_known hparams)
    obtain ⟨hbody, -⟩ := stmts_typed body hs.2.2 hin (hsup.enterParams hs.2.1 s.params) hm hi hgrows
    refine .mk (paramTypes_length hparams) hs.2.1 hbody fun hmust => ?_
    simpa [hmust] using hpaths
termination_by structural d => d

theorem routines_typed : ∀ (ds : List (FunctionDecl (Stmt NodeId))) {signatures : List Signature}
    {st st' : TypeState}, Stmt.ShapedRoutines ds → st.Good → st.scope.Supers P.classes →
    List.Forall₂ (fun s d => ∃ scope, signature d scope = .ok s) signatures ds →
    (∀ x ∈ routinesMoments signatures ds st, P.Covers x) →
    checkRoutines signatures ds st = .ok () st' → st'.classes.Grows P.classes →
    Stmt.TypedRoutines P st.scope signatures ds
  | [], _, _, _, _, _, _, .nil, _, _, _ => .nil
  | d :: rest, _, st, st', hs, hg, hsup, .cons hsig hsigs, hm, hc, hgrows => by
    obtain ⟨mid, hfirst, hrest⟩ := checkRoutines_cons.1 hc
    obtain ⟨hmid, -⟩ := checkRoutine_good d hg hsig hfirst
    have hmidgrows := (checkRoutines_good rest hmid hsigs hrest).2.trans hgrows
    rw [routines_moments hfirst] at hm
    obtain ⟨hms, hmr⟩ := List.forall_mem_append.1 hm
    have hscope : mid.scope = st.scope := by
      obtain ⟨inner, -, -, rfl⟩ := checkRoutine_ok.1 hfirst
      rfl
    refine .cons (routine_typed d hs.1 hg hsup hsig hms hfirst hmidgrows) ?_
    have hothers := routines_typed rest hs.2 hmid (hscope ▸ hsup) hsigs hmr hrest hgrows
    rwa [hscope] at hothers
termination_by structural ds => ds

end

end Typing

end ClassScript
