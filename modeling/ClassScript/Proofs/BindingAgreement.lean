import ClassScript.Proofs.CheckTrace
import ClassScript.Proofs.Places
import ClassScript.Proofs.SpelledSources
import Mathlib.Data.List.Forall2

/-!
# Both static passes find the same bindings

The walk that resolves names and the check of types each keep scopes of their own. They bind the same
names (`Aligned`) wherever both are between two statements, so for every use of a name the scope in
which the check finds it is as far away as the walk has noted (`uses_agree`). There is one exception:
the walk announces a local variable before its initial value and the check binds it after, so an
assignment to the variable in its own initial value is noted with the distance 0, while the check
finds another variable of this name, further out (`Session.bindings_agree_iff`).
-/

set_option autoImplicit false

namespace ClassScript

open Resolution Typing

/-- The use assigns to the local variable whose initial value it stands in. -/
def CheckedUse.InOwnInitializer (u : CheckedUse) : Prop :=
  u.use.kind = .assign ∧ ∃ x, u.initializing = some x ∧ u.use.name.text = x.text

/-! ## Scopes that bind the same names -/

/-- The scopes of both passes bind the same names, scope by scope. -/
def Aligned (l : Lexical) (scope : TypeScope) : Prop :=
  List.Forall₂ (fun a b => ∀ x, a.names.contains x = b.contains x) l scope.locals

namespace Aligned

variable {l : Lexical} {scope : TypeScope}

theorem depth?_eq (h : Aligned l scope) (x : String) :
    Resolution.depth? x l.scopes = scope.depth? x := by
  show Resolution.depth? x (l.map (·.names)) = TypeScope.depthIn? x scope.locals
  unfold Aligned at h
  generalize scope.locals = locals at h ⊢
  induction h with
  | nil => rfl
  | cons hx _ ih => simp only [List.map_cons, Resolution.depth?, TypeScope.depthIn?, hx x, ih]

theorem enter (h : Aligned l scope) (site : Site) {names : Bindings Bool} {types : Bindings Ty}
    (hn : ∀ x, names.contains x = types.contains x) :
    Aligned (⟨site, names⟩ :: l) (scope.enter types) :=
  .cons hn h

theorem bind (h : Aligned l scope) (name : Name) (ty : Ty) :
    Aligned (l.bind name) (scope.define name.text ty) := by
  obtain ⟨globals, locals⟩ := scope
  cases h with
  | nil => exact .nil
  | @cons a b outer inner hx ho =>
    obtain ⟨site, names⟩ := a
    rw [Lexical.bind_cons]
    refine .cons (fun y => ?_) ho
    show Bindings.contains _ y = _
    rw [Bindings.contains_insert, Bindings.contains_insert, ← hx y]
    split
    · rfl
    · rw [Bindings.contains_insert]
      cases name.text == y <;> rfl

theorem bindAll (params : List Param) (types : List Ty) (hl : types.length = params.length)
    {b : Bindings Ty} (h : Aligned l (scope.enter b)) :
    Aligned (l.bindAll params)
      (scope.enter (((params.map fun p => p.name.text).zip types).foldl
        (fun b p => b.insert p.1 p.2) b)) := by
  induction params generalizing l b types with
  | nil => exact h
  | cons p rest ih =>
    cases types with
    | nil => cases hl
    | cons ty others => exact ih others (by simpa using hl) (h.bind p.name ty)

/-- Inside a function both passes have bound the parameters. -/
theorem inRoutine (h : Aligned l scope) (decl : FunctionDecl (Stmt NodeId)) {types : List Ty}
    (hl : types.length = decl.params.length) :
    Aligned (l.inRoutine decl) (scope.enter (paramScope decl.params types)) :=
  bindAll decl.params types hl (h.enter (.routine decl) fun _ => rfl)

theorem inClass (h : Aligned l scope) (decl : ClassDecl NodeId (Stmt NodeId)) (id : ClassId)
    {parent : Option ClassId} (hp : parent.isSome = decl.superclass.isSome) :
    Aligned (l.inClass decl) (enterClass id parent scope) := by
  unfold Lexical.inClass enterClass
  have single (w : String) (b : Bool) (ty : Ty) (x : String) :
      (Bindings.single w b).contains x = (Bindings.single w ty).contains x := by
    rw [Bindings.single, Bindings.single, Bindings.contains_insert, Bindings.contains_insert]
    rfl
  cases parent with
  | none =>
    cases hs : decl.superclass with
    | none => exact h.enter (.members decl) (single "this" true (.object id))
    | some s => rw [hs] at hp; cases hp
  | some p =>
    cases hs : decl.superclass with
    | none => rw [hs] at hp; cases hp
    | some s =>
      exact (h.enter (.superclass decl) (single "super" true (.object p))).enter (.members decl)
        (single "this" true (.object id))

end Aligned

/-! ## Uses in expressions -/

/-- A place of a program and a use that the check meets are the same occurrence, the check finds its
name, and it does so at the depth of the place unless the use assigns to the local variable in whose
own initial value it stands. -/
structure Agree (p : Place) (u : CheckedUse) : Prop where
  use : p.use = u.use
  found : (u.scope.get? u.use.name.text).isSome = true
  depth : ¬ u.InOwnInitializer → p.depth? = u.scope.depth? u.use.name.text
  own : u.InOwnInitializer → p.depth? = some 0 ∧ u.scope.depth? u.use.name.text ≠ some 0

/-- The name may be bound: it is no reserved word, and the innermost local scope does not bind it. -/
def TypeScope.Fresh (scope : TypeScope) (name : Name) : Prop :=
  name.Free ∧ ∀ b outer, scope.locals = b :: outer → b.contains name.text = false

/-- The uses of names at places agree with those that the check meets, and what it binds is fresh. -/
structure Agreed (ps : List Place) (ms : List Moment) : Prop where
  uses : List.Forall₂ Agree ps (checkedUses ms)
  fresh : ∀ name ty scope, Moment.bound name ty scope ∈ ms → scope.Fresh name

theorem found_of_increment {t : ClassTable} {scope : TypeScope} (operand : Expr NodeId)
    {operator : Token} {ty : Ty} (h : increment t scope operand operator = .ok ty) :
    ∀ o ∈ operand.occurrences, (scope.get? o.name.text).isSome = true := by
  obtain ⟨id, name, got, rfl, hg, -⟩ := increment_ok.1 h
  exact List.forall_mem_singleton.2 (by rw [hg]; rfl)

mutual

/-- The check finds every name in an expression that has a type. -/
theorem found_of_typeOf {t : ClassTable} {scope : TypeScope} : ∀ (e : Expr NodeId) {ty : Ty},
    e.Shaped → typeOf t scope e = .ok ty →
      ∀ o ∈ e.occurrences, (scope.get? o.name.text).isSome = true
  | .literal _, _, _, _ => fun _ h => nomatch h
  | .unary operator operand, _, hs, h => by
    rcases typeOf_unary.1 h with ⟨-, hi⟩ | ⟨-, got, hg, -⟩
    · exact found_of_increment operand hi
    · exact found_of_typeOf operand hs.2 hg
  | .suffixed operand _, _, _, h => found_of_increment operand h
  | .binary left _ right, _, hs, h => by
    obtain ⟨_, _, hl, hr, -⟩ := typeOf_binary.1 h
    exact List.forall_mem_append.2
      ⟨found_of_typeOf left hs.1 hl, found_of_typeOf right hs.2 hr⟩
  | .logical left _ right, _, hs, h => by
    obtain ⟨_, _, hl, hr, -⟩ := typeOf_logical.1 h
    exact List.forall_mem_append.2
      ⟨found_of_typeOf left hs.1 hl, found_of_typeOf right hs.2 hr⟩
  | .grouping inner, _, hs, h => found_of_typeOf inner hs h
  | .variable _ name, _, _, h => by
    have hf : scope.get? name.text = some _ := lookUp_ok.1 h
    exact List.forall_mem_singleton.2 (by rw [hf]; rfl)
  | .assign _ name value, _, hs, h => by
    obtain ⟨ht, _, hg, -⟩ := typeOf_assign.1 h
    exact List.forall_mem_cons.2 ⟨by rw [ht]; rfl, found_of_typeOf value hs.2 hg⟩
  | .call callee _ arguments, _, hs, h => by
    obtain ⟨_, _, hf, ht, -⟩ := typeOf_call.1 h
    exact List.forall_mem_append.2
      ⟨found_of_typeOf callee hs.1 hf, found_of_typesOf arguments hs.2 ht⟩
  | .get object _, _, hs, h => by
    obtain ⟨_, ho, -⟩ := typeOf_get.1 h
    exact found_of_typeOf object hs ho
  | .set object _ value, _, hs, h => by
    obtain ⟨_, _, ho, -, hg, -⟩ := typeOf_set.1 h
    exact List.forall_mem_append.2
      ⟨found_of_typeOf object hs.1 ho, found_of_typeOf value hs.2 hg⟩
  | .this _ keyword, _, hs, h => by
    have hk : keyword.text = "this" := hs
    have hf : scope.get? "this" = some _ := lookUp_ok.1 h
    exact List.forall_mem_singleton.2 (by rw [hk, hf]; rfl)
  | .super _ keyword _, _, hs, h => by
    have hk : keyword.text = "super" := hs
    obtain ⟨_, _, hf, -⟩ := superMethod_ok.1 h
    exact List.forall_mem_singleton.2 (by rw [hk, hf]; rfl)
termination_by structural e => e

theorem found_of_typesOf {t : ClassTable} {scope : TypeScope} :
    ∀ (es : List (Expr NodeId)) {tys : List Ty}, Expr.ShapedAll es → typesOf t scope es = .ok tys →
      ∀ o ∈ Expr.occurrencesAll es, (scope.get? o.name.text).isSome = true
  | [], _, _, _ => fun _ h => nomatch h
  | e :: rest, _, hs, h => by
    obtain ⟨_, _, he, hr, -⟩ := typesOf_cons.1 h
    exact List.forall_mem_append.2 ⟨found_of_typeOf e hs.1 he, found_of_typesOf rest hs.2 hr⟩
termination_by structural es => es

end

/-! ## Uses that agree -/

section

variable {l : Lexical} {scope : TypeScope}

theorem usesAgree {os : List (Occurrence NodeId)} {initializing : Option Name}
    (h : ∀ o ∈ os, Agree ⟨o, l⟩ ⟨o, scope, initializing⟩) :
    Agreed (placesAt l os) (usesIn scope initializing os) := by
  constructor
  · induction os with
    | nil => exact .nil
    | cons o rest ih =>
      exact .cons (h o (List.mem_cons_self ..)) (ih fun x hx => h x (List.mem_cons_of_mem o hx))
  · intro name ty scope' hm
    obtain ⟨o, -, ho⟩ := List.mem_map.1 hm
    cases ho

theorem checkedUses_append (ms ns : List Moment) :
    checkedUses (ms ++ ns) = checkedUses ms ++ checkedUses ns :=
  List.filterMap_append

theorem agree_append {ps qs : List Place} {ms ns : List Moment} (h : Agreed ps ms)
    (h' : Agreed qs ns) : Agreed (ps ++ qs) (ms ++ ns) := by
  constructor
  · rw [checkedUses_append]
    exact List.rel_append h.uses h'.uses
  · intro name ty scope hm
    rcases List.mem_append.1 hm with hm | hm
    · exact h.fresh name ty scope hm
    · exact h'.fresh name ty scope hm

theorem Agreed.nil : Agreed [] [] :=
  ⟨.nil, fun _ _ _ h => nomatch h⟩

/-- A fresh name is bound. -/
theorem Agreed.bound {name : Name} {ty : Ty} {ps : List Place} {ms : List Moment}
    (hf : scope.Fresh name) (h : Agreed ps ms) : Agreed ps (.bound name ty scope :: ms) := by
  refine ⟨h.uses, fun x ty' scope' hm => ?_⟩
  rcases List.mem_cons.1 hm with he | hm
  · cases he
    exact hf
  · exact h.fresh x ty' scope' hm

/-- A field is entered. -/
theorem Agreed.entered {id : ClassId} {d : VarDecl NodeId} {ty : Ty} {t : ClassTable} {ps : List Place}
    {ms : List Moment} (h : Agreed ps ms) : Agreed ps (.entered id d ty t :: ms) := by
  refine ⟨h.uses, fun x ty' scope' hm => ?_⟩
  rcases List.mem_cons.1 hm with he | hm
  · cases he
  · exact h.fresh x ty' scope' hm

/-- A name that the walk accepts is fresh. -/
theorem Aligned.fresh (ha : Aligned l scope) {name : Name} (hf : name.Free)
    (hd : (declare l.scopes name).2.errors = []) : scope.Fresh name := by
  refine ⟨hf, fun b outer hl => ?_⟩
  unfold Aligned at ha
  rw [hl] at ha
  obtain ⟨a, rest, hx, -, rfl⟩ := List.forall₂_cons_right_iff.1 ha
  obtain ⟨site, names⟩ := a
  rw [← hx]
  exact not_contains_of_declare hd

/-- Between two statements both passes find the names of an expression at the same distance. -/
theorem expr_agree (ha : Aligned l scope) {t : ClassTable} {e : Expr NodeId} {ty : Ty}
    (hs : e.Shaped) (ht : typeOf t scope e = .ok ty) :
    Agreed (placesAt l e.occurrences) (usesIn scope none e.occurrences) := by
  refine usesAgree fun o ho => ⟨rfl, found_of_typeOf e hs ht o ho, fun _ => ha.depth?_eq _, ?_⟩
  rintro ⟨-, x, hx, -⟩
  cases hx

theorem exprOption_agree (ha : Aligned l scope) {t : ClassTable} {e : Option (Expr NodeId)}
    {ty : Option Ty} (hs : Expr.ShapedOption e) (ht : initialType t scope e = .ok ty) :
    Agreed (placesAt l (Expr.occurrencesOption e))
      (usesIn scope none (Expr.occurrencesOption e)) := by
  rcases initialType_ok.1 ht with ⟨rfl, -⟩ | ⟨e', got, rfl, -, hg⟩
  · exact .nil
  · exact expr_agree ha hs hg

/-- In the initial value of a local variable, which one of the passes has announced and the other
one has not, they differ on assignments to this variable only. -/
theorem localInitializer_agree {site : Site} {names : Bindings Bool} {outer : Lexical} {x : Name}
    (ha : Aligned (⟨site, names⟩ :: outer) scope) (hx : x.Free)
    (hc : names.contains x.text = false) {enclosing : Enclosing} {e : Expr NodeId}
    (he : (expression enclosing (Lexical.scopes (Lexical.declare (⟨site, names⟩ :: outer) x))
      e).errors = [])
    (hs : e.Shaped) {t : ClassTable} {ty : Ty} (ht : typeOf t scope e = .ok ty) :
    Agreed (placesAt (Lexical.declare (⟨site, names⟩ :: outer) x) e.occurrences)
      (usesIn scope (some x) e.occurrences) := by
  refine usesAgree fun o ho => ⟨rfl, found_of_typeOf e hs ht o ho, fun hown => ?_, ?_⟩
  · have hne : x.text ≠ o.name.text := by
      intro heq
      by_cases hk : o.kind = .assign
      · exact hown ⟨hk, x, rfl, heq.symm⟩
      · exact ne_of_initializer hx hc he hs ho hk heq
    rw [Place.depth?, Lexical.depth?_declare_of_ne _ hne, ha.depth?_eq]
  · rintro ⟨-, y, hy, hn⟩
    cases hy
    have hn : o.name.text = x.text := hn
    constructor
    · show Resolution.depth? o.name.text _ = _
      rw [declare_cons hc, hn]
      simp [Lexical.scopes, Resolution.depth?, Bindings.contains_insert]
    · show scope.depth? o.name.text ≠ some 0
      rw [hn, ← ha.depth?_eq]
      simp [Lexical.scopes, Resolution.depth?, hc]

theorem initializer_agree (ha : Aligned l scope) {decl : VarDecl NodeId} (hs : decl.Shaped)
    (hd : (declare l.scopes decl.name).2.errors = []) {enclosing : Enclosing}
    (he : (expressionOption enclosing (l.declare decl.name).scopes decl.initializer).errors = [])
    {t : ClassTable} {ty : Option Ty} (ht : initialType t scope decl.initializer = .ok ty) :
    Agreed (placesAt (l.declare decl.name) (Expr.occurrencesOption decl.initializer))
      (usesIn scope (initializing scope decl.name)
        (Expr.occurrencesOption decl.initializer)) := by
  rcases initialType_ok.1 ht with ⟨hn, -⟩ | ⟨e, got, hi, -, hg⟩
  · rw [hn]
    exact .nil
  · have hse : e.Shaped := by
      have := hs.2
      rw [hi] at this
      exact this
    rw [hi] at he ⊢
    cases l with
    | nil =>
      have hl : scope.locals = [] := List.forall₂_nil_left_iff.1 ha
      rw [initializing, hl]
      exact expr_agree ha hse hg
    | cons a outer =>
      obtain ⟨site, names⟩ := a
      obtain ⟨b, inner, -, -, hl⟩ := List.forall₂_cons_left_iff.1 ha
      rw [initializing, hl]
      exact localInitializer_agree ha hs.1 (not_contains_of_declare hd) he hse hg

end

/-! ## Uses in statements -/

theorem fields_agree {l : Lexical} {enclosing : Enclosing} {id : ClassId}
    {fields : List (VarDecl NodeId)} {st st' : TypeState} (ha : Aligned l st.scope)
    (hs : ∀ d ∈ fields, d.Shaped) (he : (Resolution.fields enclosing l.scopes fields).errors = [])
    (hc : enterFields id fields st = .ok () st') :
    Agreed (placesAt l (VarDecl.occurrencesAll fields)) (fieldMoments id fields st) := by
  induction fields generalizing st with
  | nil => exact .nil
  | cons d rest ih =>
    obtain ⟨ty, hty, hr⟩ := enterFields_cons.1 hc
    obtain ⟨_, initial, -, hi, -⟩ := declaredType_ok.1 (fieldType_ok.1 hty).1
    have ha' : Aligned l (TypeState.scope ⟨st.classes.addField id d.name.text ty, st.scope⟩) := ha
    have hrest := ih ha' (fun x hx => hs x (List.mem_cons_of_mem d hx))
      (Report.append_errors.1 he).2 hr
    have hd := exprOption_agree ha (hs d (List.mem_cons_self ..)).2 hi
    rw [fieldMoments_cons hty]
    show Agreed
      (placesAt l (Expr.occurrencesOption d.initializer ++ VarDecl.occurrencesAll rest)) _
    rw [placesAt_append]
    exact agree_append hd hrest.entered

theorem superclass_agree {l : Lexical} {name : Name} {s : Option (SuperclassRef NodeId)}
    {t : ClassTable} {scope : TypeScope} {parent : Option ClassId} (ha : Aligned l scope)
    (hc : superclassOf name s t scope = .ok parent) :
    Agreed (placesAt (l.bind name) (SuperclassRef.occurrences s))
      (usesIn scope none (SuperclassRef.occurrences s)) := by
  rcases superclassOf_ok.1 hc with ⟨rfl, -⟩ | ⟨s, id, rfl, -, hn, hg⟩
  · exact .nil
  · refine usesAgree (List.forall_mem_singleton.2 ⟨rfl, by rw [hg]; rfl, fun _ => ?_, ?_⟩)
    · show Resolution.depth? s.name.text (l.bind name).scopes = _
      rw [l.depth?_bind_of_ne (Ne.symm hn), ha.depth?_eq]
    · rintro ⟨-, x, hx, -⟩
      cases hx

theorem superclassOf_isSome {name : Name} {s : Option (SuperclassRef NodeId)} {t : ClassTable}
    {scope : TypeScope} {parent : Option ClassId} (hc : superclassOf name s t scope = .ok parent) :
    parent.isSome = s.isSome := by
  rcases superclassOf_ok.1 hc with ⟨rfl, rfl⟩ | ⟨s, id, rfl, rfl, -, -⟩ <;> rfl

mutual

/-- Both passes bind the same names in a statement, and they agree on its uses of names. -/
theorem stmt_agree : ∀ (s : Stmt NodeId) {returns : Ty} {routine : Routine} {enclosing : Enclosing}
    {l : Lexical} {st st' : TypeState}, s.Shaped → Aligned l st.scope →
    (statement routine enclosing l.scopes s).2.errors = [] →
    checkStmt returns s st = .ok () st' →
    Aligned (s.scopesAfter l) st'.scope ∧
      Agreed (s.places l) (stmtMoments returns s st)
  | .expression value, _, _, _, _, _, _, hs, ha, _, hc => by
    obtain ⟨⟨ty, ht⟩, rfl⟩ := checkStmt_expression.1 hc
    exact ⟨ha, expr_agree ha hs ht⟩
  | .print value, _, _, _, _, _, _, hs, ha, _, hc => by
    obtain ⟨⟨ty, ht⟩, rfl⟩ := checkStmt_print.1 hc
    exact ⟨ha, expr_agree ha hs ht⟩
  | .var decl, _, _, enclosing, l, st, _, hs, ha, he, hc => by
    obtain ⟨ty, hty, rfl⟩ := checkStmt_var.1 hc
    obtain ⟨_, initial, -, hi, -⟩ := declaredType_ok.1 hty
    obtain ⟨hd, he⟩ := var_errors.1 he
    refine ⟨ha.bind decl.name ty, ?_⟩
    have hbound : Agreed [] [.bound decl.name ty st.scope] := Agreed.nil.bound (ha.fresh hs.1 hd)
    rw [var_moments hty, Stmt.places, ← List.append_nil (placesAt _ _)]
    exact agree_append (initializer_agree ha hs hd he hi) hbound
  | .block body, _, routine, enclosing, l, st, _, hs, ha, he, hc => by
    obtain ⟨inner, hi, rfl⟩ := checkStmt_block.1 hc
    exact ⟨ha, (stmts_agree body hs (ha.enter (.block body) fun _ => rfl) (block_errors.1 he) hi).2⟩
  | .ifThen condition thenBranch, _, _, _, _, _, _, hs, ha, he, hc => by
    obtain ⟨hcond, ht⟩ := checkStmt_ifThen.1 hc
    obtain ⟨_, hty, -⟩ := checkCondition_ok.1 hcond
    obtain ⟨hafter, hthen⟩ := stmt_agree thenBranch hs.2.1 ha (ifThen_errors.1 he).2 ht
    exact ⟨hafter, agree_append (expr_agree ha hs.1 hty) hthen⟩
  | .ifElse condition thenBranch elseBranch, _, routine, enclosing, l, _, _, hs, ha, he, hc => by
    obtain ⟨hcond, mid, ht, hel⟩ := checkStmt_ifElse.1 hc
    obtain ⟨_, hty, -⟩ := checkCondition_ok.1 hcond
    obtain ⟨-, hthen, helse⟩ := ifElse_errors.1 he
    obtain ⟨hmid, hfirst⟩ := stmt_agree thenBranch hs.2.1.1 ha hthen ht
    obtain ⟨hafter, hsecond⟩ := stmt_agree elseBranch hs.2.2.1 hmid helse hel
    refine ⟨hafter, ?_⟩
    rw [ifElse_moments ht]
    exact agree_append (agree_append (expr_agree ha hs.1 hty) hfirst) hsecond
  | .whileLoop condition body, _, _, _, _, _, _, hs, ha, he, hc => by
    obtain ⟨hcond, hb⟩ := checkStmt_whileLoop.1 hc
    obtain ⟨_, hty, -⟩ := checkCondition_ok.1 hcond
    obtain ⟨hafter, hbody⟩ := stmt_agree body hs.2.1 ha (whileLoop_errors.1 he).2 hb
    exact ⟨hafter, agree_append (expr_agree ha hs.1 hty) hbody⟩
  | .function decl, _, _, enclosing, l, st, _, hs, ha, he, hc => by
    obtain ⟨s, hsig, hr⟩ := checkStmt_function.1 hc
    have hbound := ha.bind decl.name s.ty
    have hlen := paramTypes_length (signature_ok.1 hsig).2.1
    obtain ⟨inner, hi, -, rfl⟩ := checkRoutine_ok.1 hr
    refine ⟨hbound, ?_⟩
    rw [function_moments hsig]
    have hfree : decl.name.Free := by
      obtain ⟨name, params, result, body⟩ := decl
      exact hs.1
    have hfresh := ha.fresh hfree (function_errors.1 he).1
    exact (routine_agree decl hs hbound hlen (function_errors.1 he).2 hi).bound hfresh
  | .returnWith keyword value, _, _, _, _, _, _, hs, ha, _, hc => by
    obtain ⟨hr, rfl⟩ := checkStmt_returnWith.1 hc
    obtain ⟨_, hi, -⟩ := checkReturn_ok.1 hr
    exact ⟨ha, exprOption_agree ha hs hi⟩
  | .classDecl ⟨name, superclass, fields, methods⟩, _, _, _, l, st, _, hs, ha, he, hc => by
    obtain ⟨parent, signatures, entered, filled, hclass⟩ := checkStmt_classDecl.1 hc
    rw [hclass.moments]
    obtain ⟨hp, hm, hf, last, hr, rfl⟩ := hclass
    obtain ⟨hdeclared, -, hfields, hmethods⟩ := classDecl_errors.1 he
    obtain ⟨hscope, hsig⟩ := enterMethods_scope hm
    have hbound := ha.bind name (.classObject st.classes.nextId)
    have hinner := hbound.inClass ⟨name, superclass, fields, methods⟩ st.classes.nextId
      (superclassOf_isSome hp)
    have hfilled : Aligned ((l.bind name).inClass ⟨name, superclass, fields, methods⟩)
        filled.scope := by
      rw [enterFields_scope hf]
      show Aligned _ (enterClass _ _ entered.scope)
      rw [hscope]
      exact hinner
    refine ⟨by rw [hscope]; exact hbound, ?_⟩
    rw [Stmt.places, List.append_assoc]
    refine agree_append (superclass_agree ha hp) (.bound (ha.fresh hs.1 hdeclared) ?_)
    refine agree_append (fields_agree ?_ hs.2.2.1 hfields hf) ?_
    · show Aligned _ (enterClass _ _ entered.scope)
      rw [hscope]
      exact hinner
    · exact routines_agree methods hs.2.2.2 hfilled (hsig.imp fun s d h =>
        paramTypes_length (signature_ok.1 h).2.1) hmethods hr
termination_by structural s => s

theorem stmts_agree : ∀ (ss : List (Stmt NodeId)) {returns : Ty} {routine : Routine}
    {enclosing : Enclosing} {l : Lexical} {st st' : TypeState}, Stmt.ShapedAll ss →
    Aligned l st.scope → (statements routine enclosing l.scopes ss).2.errors = [] →
    checkStmts returns ss st = .ok () st' →
    Aligned (Stmt.scopesAfterAll l ss) st'.scope ∧
      Agreed (Stmt.placesAll l ss) (stmtsMoments returns ss st)
  | [], _, _, _, _, _, _, _, ha, _, hc => by
    obtain rfl := checkStmts_nil.1 hc
    exact ⟨ha, .nil⟩
  | s :: rest, _, routine, enclosing, l, _, _, hs, ha, he, hc => by
    obtain ⟨mid, hfirst, hrest⟩ := checkStmts_cons.1 hc
    obtain ⟨he, hothers⟩ := cons_errors.1 he
    obtain ⟨hmid, h⟩ := stmt_agree s hs.1 ha he hfirst
    obtain ⟨hafter, h'⟩ := stmts_agree rest hs.2 hmid hothers hrest
    refine ⟨hafter, ?_⟩
    rw [cons_moments hfirst]
    exact agree_append h h'
termination_by structural ss => ss

theorem routine_agree : ∀ (d : FunctionDecl (Stmt NodeId)) {s : Signature} {routine : Routine}
    {enclosing : Enclosing} {l : Lexical} {st inner : TypeState}, Stmt.ShapedRoutine d →
    Aligned l st.scope → s.params.length = d.params.length →
    (Resolution.function routine enclosing l.scopes d).errors = [] →
    checkStmts s.result d.body ⟨st.classes, st.scope.enter (paramScope d.params s.params)⟩ =
      .ok () inner →
    Agreed (Stmt.placesRoutine l d) (routineMoments s d st)
  | ⟨name, params, result, body⟩, s, _, _, l, st, _, hs, ha, hlen, he, hc => by
    have hin := ha.inRoutine ⟨name, params, result, body⟩ hlen
    exact (stmts_agree body hs.2.2 hin (routine_errors.1 he).2 hc).2
termination_by structural d => d

theorem routines_agree : ∀ (ds : List (FunctionDecl (Stmt NodeId))) {signatures : List Signature}
    {enclosing : Enclosing} {className : Name} {l : Lexical} {st st' : TypeState},
    Stmt.ShapedRoutines ds → Aligned l st.scope →
    List.Forall₂ (fun s d => s.params.length = d.params.length) signatures ds →
    (Resolution.methods enclosing l.scopes className ds).errors = [] →
    checkRoutines signatures ds st = .ok () st' →
    Agreed (Stmt.placesRoutines l ds) (routinesMoments signatures ds st)
  | [], _, _, _, _, _, _, _, _, _, _, _ => .nil
  | d :: rest, _, _, _, _, st, _, hs, ha, .cons hlen hlens, he, hc => by
    obtain ⟨mid, hfirst, hrest⟩ := checkRoutines_cons.1 hc
    obtain ⟨he, hothers⟩ := Report.append_errors.1 he
    obtain ⟨inner, hi, -, rfl⟩ := checkRoutine_ok.1 hfirst
    rw [routines_moments hfirst]
    exact agree_append (routine_agree d hs.1 ha hlen he hi)
      (routines_agree rest hs.2 ha hlens hothers hrest)
termination_by structural ds => ds

end

/-! ## Programs -/

namespace TypeScope

/-- The frame in which the check finds a name: the local one with so many scopes between, or else the
global one. -/
def frame? (s : TypeScope) (name : String) : Option (Option Nat) :=
  match s.depth? name with
  | some d => some (some d)
  | none => if s.globals.contains name then some none else none

/-- The type of a name in a frame. -/
def typeIn? (s : TypeScope) (name : String) : Option Nat → Option Ty
  | some d => s.locals[d]?.bind fun scope => scope.get? name
  | none => s.globals.get? name

theorem lookupLocal?_depthIn? (name : String) (locals : List (Bindings Ty)) :
    lookupLocal? name locals =
      (depthIn? name locals).bind fun d => locals[d]?.bind fun scope => scope.get? name := by
  induction locals with
  | nil => rfl
  | cons scope outer ih =>
    unfold lookupLocal? depthIn? Bindings.contains
    cases hs : scope.get? name with
    | some ty => simp [hs]
    | none => cases hd : depthIn? name outer <;> simp [ih, hd]

theorem lookupLocal?_eq_none (name : String) (locals : List (Bindings Ty)) :
    lookupLocal? name locals = none ↔ depthIn? name locals = none := by
  induction locals with
  | nil => simp [lookupLocal?, depthIn?]
  | cons scope outer ih =>
    unfold lookupLocal? depthIn? Bindings.contains
    cases hs : scope.get? name with
    | some ty => simp
    | none => simpa using ih

/-- The type of a name is its type in the frame in which it is found. -/
theorem get?_frame? (s : TypeScope) (name : String) :
    s.get? name = (s.frame? name).bind (s.typeIn? name) := by
  unfold get? frame? depth?
  cases hd : depthIn? name s.locals with
  | none =>
    rw [(lookupLocal?_eq_none name s.locals).2 hd]
    cases hg : s.globals.get? name <;> simp [Bindings.contains, hg, typeIn?]
  | some d =>
    have hl := lookupLocal?_depthIn? name s.locals
    rw [hd] at hl
    cases hv : lookupLocal? name s.locals with
    | none => rw [lookupLocal?_eq_none, hd] at hv; cases hv
    | some ty => rw [hv] at hl; exact hl

theorem frame?_eq (s : TypeScope) (name : String) (h : (s.get? name).isSome = true) :
    s.frame? name = some (s.depth? name) := by
  rw [get?_frame?] at h
  unfold frame? at h ⊢
  cases hd : s.depth? name with
  | some d => rfl
  | none =>
    rw [hd] at h
    dsimp only at h ⊢
    split at h
    next hc => rw [if_pos hc]
    · cases h

/-- A name that is found has its type where it is found. -/
theorem typeIn?_depth? (s : TypeScope) {name : String} {ty : Ty} (h : s.get? name = some ty) :
    s.typeIn? name (s.depth? name) = some ty := by
  have hget := s.get?_frame? name
  rw [s.frame?_eq name (by simp [h]), Option.bind_some, h] at hget
  exact hget.symm

end TypeScope

/-- The uses of names that the check of a loaded program meets agree with its places. -/
theorem Loaded.Accepted.uses_agree {first : NodeId} {l : Loaded} {c c' : Checker}
    (hl : l.Accepted first) (hc : c.check l.program = (.ok (), c')) :
    Agreed (programPlaces l.program) (c.moments l.program) := by
  rw [Checker.check_eq] at hc
  split at hc
  next st hst =>
    have he := hl.errors
    rw [hl.report, resolve_eq] at he
    have ha : Aligned [] c.start.scope := .nil
    exact (stmts_agree l.program hl.shaped ha he hst).2
  · cases hc

/-- The check meets every use of a name in an accepted program, and it finds the name in the frame at
the distance that the walk has noted, the global one without a note, exactly if the use does not
assign to the local variable in whose own initial value it stands. -/
theorem Session.bindings_agree_iff {s : Session} {source : String} {l : Loaded} {c : Checker}
    (hl : s.load source = .ok l) (hc : s.checker.check l.program = (.ok (), c)) :
    (checkedUses (s.checker.moments l.program)).map (·.use) = Stmt.occurrencesAll l.program ∧
      ∀ u ∈ checkedUses (s.checker.moments l.program),
        u.scope.frame? u.use.name.text = some (l.report.depth? u.use.id) ↔
          ¬ u.InOwnInitializer := by
  have hacc := Session.load_accepted hl
  have hagree := (hacc.uses_agree hc).uses
  constructor
  · rw [← Stmt.uses_placesAll l.program []]
    show _ = (programPlaces l.program).map _
    generalize programPlaces l.program = ps at hagree
    generalize checkedUses (s.checker.moments l.program) = us at hagree
    induction hagree with
    | nil => rfl
    | cons h _ ih => rw [List.map_cons, List.map_cons, ih, h.use]
  · intro u hu
    obtain ⟨p, hp, h⟩ : ∃ p ∈ programPlaces l.program, Agree p u := by
      generalize programPlaces l.program = ps at hagree
      generalize checkedUses (s.checker.moments l.program) = us at hagree hu
      induction hagree with
      | nil => cases hu
      | cons h _ ih =>
        rcases List.mem_cons.1 hu with rfl | hm
        · exact ⟨_, List.mem_cons_self .., h⟩
        · obtain ⟨p, hp, h⟩ := ih hm
          exact ⟨p, List.mem_cons_of_mem _ hp, h⟩
    rw [u.scope.frame?_eq _ h.found, ← h.use, hacc.depth?_place hp]
    constructor
    · intro heq hown
      obtain ⟨h0, hne⟩ := h.own hown
      rw [h0, h.use] at heq
      exact hne (Option.some.inj heq)
    · intro hown
      rw [h.depth hown, h.use]

theorem Checker.check_ok {c : Checker} {program : List (Stmt NodeId)}
    (h : (c.check program).1.isOk = true) : c.check program = (.ok (), (c.check program).2) := by
  cases hr : c.check program with
  | mk r c' =>
    rw [hr] at h
    cases r with
    | ok u => rfl
    | error e => cases h

/-- A source in which names are used at several distances. -/
def nestedSource : String :=
  "class A \x7b var f = true; m(): A \x7b \x7b var x = this; return x; \x7d \x7d \x7d " ++
    "class B < A \x7b m(): A \x7b return super.m(); \x7d \x7d print B().m() == nil;"

theorem bindings_agree_nested :
    ∃ l c, (Session.new true (.error "") .unlimited).load nestedSource = .ok l ∧
      (Session.new true (.error "") .unlimited).checker.check l.program = (.ok (), c) ∧
      ∀ u ∈ checkedUses (Checker.new.moments l.program),
        u.scope.frame? u.use.name.text = some (l.report.depth? u.use.id) ↔
          ¬ u.InOwnInitializer := by
  have hparse := parse_spelled (show nestedSource = _ from append_spelled rfl rfl)
  have hd : (match (Session.new true (.error "") .unlimited).load nestedSource with
      | .ok l => (Checker.new.check l.program).1.isOk
      | .error _ => false) = true := by
    rw [Session.load, hparse]
    decide +kernel
  split at hd
  next l hl =>
    have hc := Checker.check_ok hd
    exact ⟨l, _, hl, hc, (Session.bindings_agree_iff hl hc).2⟩
  · cases hd

/-- A source that assigns to a local variable in its own initial value. -/
def ownInitializerSource : String :=
  "var a = true; \x7b var a = (a = false); print a; \x7d print a;"

/-- The passes do not agree on all uses of names in every accepted program. -/
theorem bindings_disagree :
    ¬ ∀ (s : Session) (source : String) (l : Loaded) (c : Checker), s.load source = .ok l →
      s.checker.check l.program = (.ok (), c) →
      ∀ u ∈ checkedUses (s.checker.moments l.program),
        u.scope.frame? u.use.name.text = some (l.report.depth? u.use.id) := by
  intro h
  have hd : (match (Session.new true (.error "") .unlimited).load ownInitializerSource with
      | .ok l => (Checker.new.check l.program).1.isOk &&
        (checkedUses (Checker.new.moments l.program)).any fun u =>
          u.scope.frame? u.use.name.text != some (l.report.depth? u.use.id)
      | .error _ => false) = true := by
    rw [Session.load, parse_spelled (show ownInitializerSource = _ from rfl)]
    decide +kernel
  split at hd
  next l hl =>
    obtain ⟨hc, hany⟩ := Bool.and_eq_true_iff.1 hd
    obtain ⟨u, hu, hne⟩ := List.any_eq_true.1 hany
    have heq := h _ _ l _ hl (Checker.check_ok hc) u hu
    rw [heq] at hne
    simp at hne
  · cases hd

end ClassScript
