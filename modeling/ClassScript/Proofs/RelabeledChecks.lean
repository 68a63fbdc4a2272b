import ClassScript.Proofs.CheckerWalk
import ClassScript.Proofs.LikeTypes
import ClassScript.Proofs.Related

/-!
# Checks of relabelled programs

A checker whose table holds the same classes under other numbers, and perhaps others besides, judges a
program on other lines in the same way (`Checker.check_agrees`): both accept it, or both refuse it for
the same reason, and the classes that both have entered correspond as well.
-/

set_option autoImplicit false

namespace ClassScript

variable {ι κ σ τ α β : Type}

/-- The states hold the same types over corresponding classes. -/
structure TypeState.Like (K : ClassPairs) (st st' : TypeState) : Prop where
  classes : st.classes.Like K st'.classes
  scope : st.scope.Like K st'.scope

/-- More classes correspond: the new classes, which both tables have numbered in the same order. -/
structure ClassPairs.Grow (A B : ClassPairs) : Prop where
  next : A.next ≤ B.next ∧ A.next + B.next' = B.next + A.next'
  pair : ∀ i j, B.pair i j ↔ A.pair i j ∨ A.next ≤ i ∧ i < B.next ∧ A.next + j = i + A.next'

namespace ClassPairs.Grow

variable {A B C : ClassPairs}

theorem le (h : A.Grow B) : A.le B :=
  fun i j hij => (h.pair i j).2 (.inl hij)

theorem refl (A : ClassPairs) : A.Grow A where
  next := ⟨Nat.le_refl _, rfl⟩
  pair i j := by
    constructor
    · exact .inl
    · rintro (h | ⟨hi, hlt, -⟩)
      · exact h
      · exact absurd hlt (Nat.not_lt.2 hi)

theorem trans (h : A.Grow B) (k : B.Grow C) : A.Grow C where
  next := by
    obtain ⟨hle, heq⟩ := h.next
    obtain ⟨hle', heq'⟩ := k.next
    exact ⟨Nat.le_trans hle hle', by grind⟩
  pair i j := by
    obtain ⟨hle, heq⟩ := h.next
    obtain ⟨hle', heq'⟩ := k.next
    rw [k.pair, h.pair, or_assoc]
    refine or_congr_right ⟨?_, fun ⟨hi, hlt, hj⟩ => ?_⟩
    · rintro (⟨hi, hlt, hj⟩ | ⟨hi, hlt, hj⟩)
      · exact ⟨hi, Nat.lt_of_lt_of_le hlt hle', hj⟩
      · exact ⟨Nat.le_trans hle hi, hlt, by grind⟩
    · by_cases hB : i < B.next
      · exact .inl ⟨hi, hB, hj⟩
      · exact .inr ⟨Nat.le_of_not_lt hB, hlt, by grind⟩

end ClassPairs.Grow

/-- The pairs of classes, and the pair of the next classes. -/
def ClassPairs.add (K : ClassPairs) (hfresh : ∀ i j, K.pair i j → i ≠ K.next ∧ j ≠ K.next') :
    ClassPairs where
  pair i j := K.pair i j ∨ i = K.next ∧ j = K.next'
  left := by
    rintro i j k (h | ⟨rfl, rfl⟩) (h' | ⟨rfl, hk⟩)
    · exact K.left h h'
    · exact absurd hk (hfresh _ _ h).2
    · exact absurd rfl (hfresh _ _ h').2
    · rfl
  right := by
    rintro i j k (h | ⟨rfl, rfl⟩) (h' | ⟨hi, rfl⟩)
    · exact K.right h h'
    · exact absurd hi (hfresh _ _ h).1
    · exact absurd rfl (hfresh _ _ h').1
    · rfl
  next := K.next + 1
  next' := K.next' + 1

theorem ClassPairs.grow_add (K : ClassPairs)
    (hfresh : ∀ i j, K.pair i j → i ≠ K.next ∧ j ≠ K.next') : K.Grow (K.add hfresh) where
  next := ⟨Nat.le_succ _, Nat.add_right_comm .. ▸ rfl⟩
  pair i j := by
    refine or_congr_right ⟨?_, fun ⟨hi, hlt, hj⟩ => ?_⟩
    · rintro ⟨rfl, rfl⟩
      exact ⟨Nat.le_refl _, Nat.lt_succ_self _, rfl⟩
    · have hnext : i = K.next := Nat.le_antisymm (Nat.le_of_lt_succ hlt) hi
      subst hnext
      exact ⟨rfl, Nat.add_left_cancel hj⟩

/-! ## Changes of a table -/

namespace ClassTable.Like

variable {K : ClassPairs} {t t' : ClassTable} {i j : ClassId}

theorem lt (ht : t.Like K t') (h : K.pair i j) : i < t.nextId ∧ j < t'.nextId := by
  obtain ⟨c, d, hc, hd, -⟩ := ht.classes i j h
  exact ⟨(Array.getElem?_eq_some_iff.1 hc).1, (Array.getElem?_eq_some_iff.1 hd).1⟩

/-- The next classes correspond to none yet. -/
theorem fresh (ht : t.Like K t') (i j : ClassId) (h : K.pair i j) :
    i ≠ K.next ∧ j ≠ K.next' :=
  ⟨ht.next ▸ Nat.ne_of_lt (ht.lt h).1, ht.next' ▸ Nat.ne_of_lt (ht.lt h).2⟩

/-- Corresponding classes are changed alike. -/
theorem modify (ht : t.Like K t') (h : K.pair i j) {g g' : ClassInfo → ClassInfo}
    (hg : ∀ c d, c.Like K d → (g c).Like K (g' d)) :
    ClassTable.Like K ⟨t.classes.modify i g⟩ ⟨t'.classes.modify j g'⟩ where
  classes := by
    intro i' j' h'
    obtain ⟨c, d, hc, hd, hcd⟩ := ht.classes i' j' h'
    rw [Array.getElem?_modify, Array.getElem?_modify, hc, hd]
    by_cases hi : i = i'
    · subst hi
      rw [if_pos rfl, if_pos (K.right h h')]
      exact ⟨g c, g' d, rfl, rfl, hg c d hcd⟩
    · rw [if_neg hi, if_neg fun hj : j = j' => hi (K.left h (hj ▸ h'))]
      exact ⟨c, d, rfl, rfl, hcd⟩
  next := Array.size_modify.trans ht.next
  next' := Array.size_modify.trans ht.next'

theorem addMethod (ht : t.Like K t') (h : K.pair i j) (x : String) {s s' : Signature}
    (hs : s.Like K s') : (t.addMethod i x s).Like K (t'.addMethod j x s') :=
  ht.modify h fun _ _ hcd => ⟨hcd.name, hcd.ancestors, hcd.methods.insert x hs, hcd.fields⟩

theorem addField (ht : t.Like K t') (h : K.pair i j) (x : String) {ty ty' : Ty}
    (hty : ty.Like K ty') : (t.addField i x ty).Like K (t'.addField j x ty') :=
  ht.modify h fun _ _ hcd => ⟨hcd.name, hcd.ancestors, hcd.methods, hcd.fields.insert x hty⟩

theorem add (ht : t.Like K t') (x : String) {p p' : Option ClassId}
    (hp : Option.Rel K.pair p p') : (t.add x p).Like (K.add ht.fresh) (t'.add x p') where
  classes := by
    have hle := (K.grow_add ht.fresh).le
    rintro i j (h | ⟨hi, hj⟩)
    · obtain ⟨c, d, hc, hd, hcd⟩ := ht.classes i j h
      rw [classes_add, classes_add, if_neg (ht.next ▸ (ht.fresh i j h).1),
        if_neg (ht.next' ▸ (ht.fresh i j h).2)]
      exact ⟨c, d, hc, hd, hcd.mono hle⟩
    · rw [classes_add, classes_add, if_pos (ht.next ▸ hi), if_pos (ht.next' ▸ hj)]
      refine ⟨_, _, rfl, rfl, rfl, ?_, .empty, .empty⟩
      cases hp with
      | none => exact .nil
      | some h => exact (ht.lineage h).imp hle
  next := (nextId_add ..).trans (congrArg (· + 1) ht.next)
  next' := (nextId_add ..).trans (congrArg (· + 1) ht.next')

end ClassTable.Like

/-! ## Checks side by side -/

namespace Typing

/-- States correspond that hold the same types over corresponding classes. -/
def pairing (f : Nat → Nat) : Pairing ClassPairs TypeError TypeError TypeState TypeState where
  le := ClassPairs.Grow
  refl := .refl
  trans := .trans
  state := TypeState.Like
  error e d := d = ⟨e.cause, f e.line⟩
  excused _ := False

/-- The second check enters what the first one does, or fails for the same reason. -/
abbrev Follows (f : Nat → Nat) (R : ClassPairs → α → β → Prop) (K : ClassPairs) (x : Check α)
    (y : Check β) : Prop :=
  Related (pairing f) R K x y

/-- Nothing is found that could differ. -/
abbrev Nothing (_ : ClassPairs) (_ _ : Unit) : Prop := True

variable {f : Nat → Nat} {K : ClassPairs} {R : ClassPairs → α → β → Prop} {x : Check α}
  {y : Check β}

theorem ask_follows {q : ClassTable → TypeScope → Except TypeError α}
    {q' : ClassTable → TypeScope → Except TypeError β}
    (h : ∀ {t t' scope scope'}, t.Like K t' → scope.Like K scope' →
      Agree f (R K) (q t scope) (q' t' scope')) : Follows f R K (ask q) (ask q') := by
  intro st st' hst
  have hq := h hst.classes hst.scope
  unfold ask
  generalize q st.classes st.scope = r at hq
  generalize q' st'.classes st'.scope = r' at hq
  cases hq with
  | ok hab => exact .value hab hst
  | error cause line => exact .failure rfl hst

theorem define_follows (name : String) {a b : Ty} (hab : a.Like K b) :
    Follows f Nothing K (define name a) (define name b) :=
  Related.change fun _ _ hst => ⟨trivial, hst.classes, hst.scope.define name hab⟩

theorem modifyClasses_follows {g g' : ClassTable → ClassTable}
    (h : ∀ {t t'}, t.Like K t' → (g t).Like K (g' t')) :
    Follows f Nothing K (modifyClasses g) (modifyClasses g') :=
  Related.change fun _ _ hst => ⟨trivial, h hst.classes, hst.scope⟩

theorem inside_follows {enter enter' : TypeScope → TypeScope}
    (henter : ∀ {s s'}, s.Like K s' → (enter s).Like K (enter' s'))
    (h : Follows f R K x y) : Follows f R K (inside enter x) (inside enter' y) := by
  intro st st' hst
  have hxy := h ⟨st.classes, enter st.scope⟩ ⟨st'.classes, enter' st'.scope⟩
    ⟨hst.classes, henter hst.scope⟩
  unfold inside
  generalize x ⟨st.classes, enter st.scope⟩ = r at hxy
  generalize y ⟨st'.classes, enter' st'.scope⟩ = r' at hxy
  cases hxy with
  | ok hle hr hs => exact .ok hle hr ⟨hs.classes, hst.scope.mono hle.le⟩
  | error hle he hs => exact .error hle he ⟨hs.classes, hst.scope.mono hle.le⟩
  | excused he => exact he.elim

/-! ## Declarations -/

section

variable {t t' : ClassTable} {scope scope' : TypeScope}

theorem namedType_agrees (f : Nat → Nat) (hs : scope.Like K scope') (a : Token) :
    Agree f (Ty.Like K) (namedType scope a) (namedType scope' (a.onLine f)) := by
  have hname := hs.get? a.lexeme
  unfold namedType
  rw [Token.kind_onLine]
  split
  · exact .ok .number
  · exact .ok .string
  · exact .ok .boolean
  · exact .ok .void
  · rw [Token.lexeme_onLine, Token.line_onLine]
    generalize scope.get? a.lexeme = r at hname
    generalize scope'.get? a.lexeme = r' at hname
    cases hname with
    | none => exact .error _ _
    | some hty =>
      cases hty with
      | classObject h => exact .ok (.object h)
      | _ => exact .error _ _

theorem namedTypeOption_agrees (f : Nat → Nat) (hs : scope.Like K scope') (a : Option Token) :
    Agree f (Option.Rel (Ty.Like K)) (namedTypeOption scope a)
      (namedTypeOption scope' (a.map (Token.onLine f))) := by
  cases a with
  | none => exact .ok .none
  | some a => exact (namedType_agrees f hs a).map fun _ _ => .some

theorem initialType_agrees (ρ : Relabel ι κ) (ht : t.Like K t') (hs : scope.Like K scope')
    (e : Option (Expr ι)) :
    Agree ρ.line (Option.Rel (Ty.Like K)) (initialType t scope e)
      (initialType t' scope' (e.map (Expr.relabel ρ))) := by
  cases e with
  | none => exact .ok .none
  | some e => exact (typeOf_agrees ρ ht hs e).map fun _ _ => .some

theorem variableType_agrees (f : Nat → Nat) (ht : t.Like K t') (name : Name)
    {d d' i i' : Option Ty} (hd : Option.Rel (Ty.Like K) d d') (hi : Option.Rel (Ty.Like K) i i') :
    Agree f (Ty.Like K) (variableType t name d i) (variableType t' (name.onLine f) d' i') := by
  cases hd with
  | some hd =>
    cases hi with
    | some hi =>
      simp only [variableType, ht.accepts hd hi, ht.text hd, ht.text hi]
      split
      · exact .ok hd
      · exact .error _ _
    | none =>
      simp only [variableType, hd.requiresInitializer, ht.text hd]
      split
      · exact .error _ _
      · exact .ok hd
  | none =>
    cases hi with
    | none => exact .ok .nil
    | some hi =>
      cases hi with
      | void => exact .error _ _
      | nil => exact .ok .nil
      | number => exact .ok .number
      | string => exact .ok .string
      | boolean => exact .ok .boolean
      | function hps hr => exact .ok (.function hps hr)
      | classObject h => exact .ok (.classObject h)
      | object h => exact .ok (.object h)

theorem declaredType_agrees (ρ : Relabel ι κ) (ht : t.Like K t') (hs : scope.Like K scope')
    (d : VarDecl ι) :
    Agree ρ.line (Ty.Like K) (declaredType d t scope) (declaredType (d.relabel ρ) t' scope') :=
  (namedTypeOption_agrees ρ.line hs d.typeName).bind fun _ _ hd =>
    (initialType_agrees ρ ht hs d.initializer).bind fun _ _ hi =>
      variableType_agrees ρ.line ht d.name hd hi

theorem paramTypes_agree (f : Nat → Nat) (hs : scope.Like K scope') (ps : List Param) :
    Agree f (Ty.LikeAll K) (paramTypes scope ps) (paramTypes scope' (ps.map (Param.onLine f))) := by
  induction ps with
  | nil => exact .ok .nil
  | cons p rest ih =>
    refine (namedType_agrees f hs p.typeName).bind fun _ _ hty => ?_
    rw [hty.same .void]
    exact (require_agrees f _ _ _).bind fun _ _ _ => ih.bind fun _ _ hrest => .ok (.cons hty hrest)

theorem resultType_agrees (f : Nat → Nat) (hs : scope.Like K scope') (a : Option Token) :
    Agree f (Ty.Like K) (resultType scope a) (resultType scope' (a.map (Token.onLine f))) := by
  cases a with
  | none => exact .ok .void
  | some a => exact namedType_agrees f hs a

theorem signature_agrees (ρ : Relabel ι κ) (hs : scope.Like K scope') (d : FunctionDecl (Stmt ι)) :
    Agree ρ.line (Signature.Like K) (signature d scope)
      (signature (Stmt.relabelRoutine ρ d) scope') := by
  rw [Stmt.relabelRoutine_eq]
  exact (paramTypes_agree ρ.line hs d.params).bind fun _ _ hps =>
    (resultType_agrees ρ.line hs d.result).bind fun _ _ hr => .ok ⟨rfl, hps, hr⟩

theorem paramScope_like (f : Nat → Nat) (ps : List Param) {tys tys' : List Ty}
    (h : Ty.LikeAll K tys tys') :
    Bindings.Forall₂ (Ty.Like K) (paramScope ps tys) (paramScope (ps.map (Param.onLine f)) tys') := by
  refine .ofList ?_
  induction ps generalizing tys tys' with
  | nil => exact .nil
  | cons p rest ih =>
    cases h with
    | nil => exact .nil
    | cons hty hrest => exact .cons ⟨rfl, hty⟩ (ih hrest)

/-! ## Classes -/

theorem superclassOf_agrees (f : Nat → Nat) (ρ : Relabel ι κ) (hf : ρ.line = f)
    (ht : t.Like K t') (hs : scope.Like K scope') (name : Name) (s : Option (SuperclassRef ι)) :
    Agree f (Option.Rel K.pair) (superclassOf name s t scope)
      (superclassOf (name.onLine f) (s.map (SuperclassRef.relabel ρ)) t' scope') := by
  subst hf
  cases s with
  | none => exact .ok .none
  | some s =>
    refine (require_agrees ρ.line _ _ _).bind fun _ _ _ =>
      (lookUp_agrees ρ.line hs s.name.text s.name.line).bind fun ty ty' hty => ?_
    have htext := ht.text hty
    cases hty with
    | classObject h => exact .ok (.some h)
    | _ =>
      simp only [htext]
      exact .error _ _

theorem overrides_like (ht : t.Like K t') {s s' u u' : Signature} (hs : s.Like K s')
    (hu : u.Like K u') : overrides t' s' u' = overrides t s u := by
  unfold overrides
  rw [hs.params.same hu.params, ht.accepts hs.result hu.result]

theorem checkOverride_agrees (f : Nat → Nat) (ht : t.Like K t') {i j : ClassId} (h : K.pair i j)
    (name : Name) {s s' : Signature} (hs : s.Like K s') :
    Agree f (fun _ _ => True) (checkOverride t i name s) (checkOverride t' j (name.onLine f) s') := by
  have hfield := ht.findField? (x := name.text) h
  have hmethod := ht.findMethod? (x := name.text) h
  unfold checkOverride
  rw [Name.text_onLine, Name.line_onLine]
  generalize t.findField? i name.text = r at hfield
  generalize t'.findField? j name.text = r' at hfield
  cases hfield with
  | some hty =>
    dsimp only
    rw [ht.text hty]
    exact .error _ _
  | none =>
    dsimp only
    generalize t.findMethod? i name.text = u at hmethod
    generalize t'.findMethod? j name.text = u' at hmethod
    cases hmethod with
    | none => exact .ok trivial
    | some hu =>
      dsimp only
      rw [overrides_like ht hu hs, ht.name h, ht.text hu.ty, ht.text hs.ty]
      exact require_agrees f _ _ _

theorem methodSignature_agrees (ρ : Relabel ι κ) (ht : t.Like K t') (hs : scope.Like K scope')
    (className : Name) {p p' : Option ClassId} (hp : Option.Rel K.pair p p')
    (d : FunctionDecl (Stmt ι)) :
    Agree ρ.line (Signature.Like K) (methodSignature className p d t scope)
      (methodSignature (className.onLine ρ.line) p' (Stmt.relabelRoutine ρ d) t' scope') := by
  have hname : (Stmt.relabelRoutine ρ d).name = d.name.onLine ρ.line := by
    rw [Stmt.relabelRoutine_eq]
  unfold methodSignature
  refine (signature_agrees ρ hs d).bind fun s s' hsig => ?_
  rw [hname, hsig.result.same .void]
  refine (require_agrees ρ.line _ _ _).bind fun _ _ _ => ?_
  cases hp with
  | none => exact .ok hsig
  | some h => exact (checkOverride_agrees ρ.line ht h d.name hsig).bind fun _ _ _ => .ok hsig

theorem checkField_agrees (f : Nat → Nat) (ht : t.Like K t') {i j : ClassId} (h : K.pair i j)
    (name : Name) {ty ty' : Ty} (hty : ty.Like K ty') :
    Agree f (fun _ _ => True) (checkField t i name ty) (checkField t' j (name.onLine f) ty') := by
  have hmethod := ht.findMethod? (x := name.text) h
  have hsuper := ht.superclass? h
  unfold checkField
  rw [Name.text_onLine, Name.line_onLine]
  have hnone : (t'.findMethod? j name.text).isNone = (t.findMethod? i name.text).isNone := by
    generalize t.findMethod? i name.text = r at hmethod
    generalize t'.findMethod? j name.text = r' at hmethod
    cases hmethod <;> rfl
  rw [hnone]
  refine (require_agrees f _ _ _).bind fun _ _ _ => ?_
  generalize t.superclass? i = r at hsuper
  generalize t'.superclass? j = r' at hsuper
  cases hsuper with
  | none => exact .ok trivial
  | @some p p' hp =>
    have hfield := ht.findField? (x := name.text) hp
    simp only [Option.bind_some]
    generalize t.findField? p name.text = u at hfield
    generalize t'.findField? p' name.text = u' at hfield
    cases hfield with
    | none => exact .ok trivial
    | some hinherited =>
      dsimp only
      rw [hinherited.same hty, ht.text hinherited, ht.text hty]
      exact require_agrees f _ _ _

theorem fieldType_agrees (ρ : Relabel ι κ) (ht : t.Like K t') (hs : scope.Like K scope')
    {i j : ClassId} (h : K.pair i j) (d : VarDecl ι) :
    Agree ρ.line (Ty.Like K) (fieldType i d t scope) (fieldType j (d.relabel ρ) t' scope') :=
  (declaredType_agrees ρ ht hs d).bind fun _ _ hty =>
    (checkField_agrees ρ.line ht h d.name hty).bind fun _ _ _ => .ok hty

theorem enterClass_like {i j : ClassId} (h : K.pair i j) {p p' : Option ClassId}
    (hp : Option.Rel K.pair p p') {s s' : TypeScope} (hs : s.Like K s') :
    (enterClass i p s).Like K (enterClass j p' s') := by
  cases hp with
  | none => exact hs.enter (.single "this" (.object h))
  | some h' => exact (hs.enter (.single "super" (.object h'))).enter (.single "this" (.object h))

end

theorem newClass_follows (name : Name) {p p' : Option ClassId} (hp : Option.Rel K.pair p p') :
    Follows f ClassPairs.pair K (newClass name p) (newClass (name.onLine f) p') := by
  intro st st' hst
  have hadd := hst.classes.add name.text hp
  have hgrow := K.grow_add hst.classes.fresh
  have hnew : (K.add hst.classes.fresh).pair st.classes.nextId st'.classes.nextId :=
    .inr ⟨hst.classes.next, hst.classes.next'⟩
  exact .ok hgrow hnew ⟨hadd, (hst.scope.mono hgrow.le).define name.text (.classObject hnew)⟩

theorem enterMethods_follows (ρ : Relabel ι κ) {i j : ClassId} (className : Name)
    (ds : List (FunctionDecl (Stmt ι))) : ∀ {K : ClassPairs}, K.pair i j →
    ∀ {p p' : Option ClassId}, Option.Rel K.pair p p' →
    Follows ρ.line (fun K => List.Forall₂ (Signature.Like K)) K (enterMethods i className p ds)
      (enterMethods j (className.onLine ρ.line) p' (Stmt.relabelRoutines ρ ds)) := by
  induction ds with
  | nil => exact fun _ _ _ _ => Related.pure .nil
  | cons d rest ih =>
    intro K h p p' hp
    have hname : (Stmt.relabelRoutine ρ d).name.text = d.name.text := by
      rw [Stmt.relabelRoutine_eq]
      rfl
    rw [Stmt.relabelRoutines]
    unfold enterMethods
    rw [hname]
    refine Related.bind (ask_follows fun ht hs => methodSignature_agrees ρ ht hs className hp d)
      fun K₁ s s' hle hs => ?_
    refine Related.bind (modifyClasses_follows fun ht =>
      ht.addMethod (hle.le _ _ h) d.name.text hs) fun K₂ _ _ hle' _ => ?_
    have hle₂ := (hle.trans hle').le
    exact (ih (hle₂ _ _ h) (hle₂.option hp)).bind fun K₃ _ _ hle'' hrest =>
      Related.pure (.cons ((hs.mono hle'.le).mono hle''.le) hrest)

theorem enterFields_follows (ρ : Relabel ι κ) {i j : ClassId} (ds : List (VarDecl ι)) :
    ∀ {K : ClassPairs}, K.pair i j →
    Follows ρ.line Nothing K (enterFields i ds) (enterFields j (ds.map (VarDecl.relabel ρ))) := by
  induction ds with
  | nil => exact fun _ => Related.pure trivial
  | cons d rest ih =>
    intro K h
    refine Related.bind (ask_follows fun ht hs => fieldType_agrees ρ ht hs h d)
      fun K₁ ty ty' hle hty => ?_
    exact Related.bind (modifyClasses_follows fun ht => ht.addField (hle.le _ _ h) d.name.text hty)
      fun K₂ _ _ hle' _ => ih (hle'.le _ _ (hle.le _ _ h))

/-! ## Statements -/

section

variable {t t' : ClassTable} {scope scope' : TypeScope} (ρ : Relabel ι κ)

theorem checkCondition_agrees (h0 : ρ.line 0 = 0) (ht : t.Like K t') (hs : scope.Like K scope')
    (keyword : String) (condition : Expr ι) :
    Agree ρ.line (fun _ _ => True) (checkCondition keyword condition t scope)
      (checkCondition keyword (condition.relabel ρ) t' scope') := by
  refine (typeOf_agrees ρ ht hs condition).bind fun ty ty' hty => ?_
  rw [hty.same .boolean, ht.text hty, Expr.line_relabel ρ h0]
  exact require_agrees ρ.line _ _ _

theorem checkReturn_agrees (ht : t.Like K t') (hs : scope.Like K scope') {returns returns' : Ty}
    (hr : returns.Like K returns') (keyword : Name) (value : Option (Expr ι)) :
    Agree ρ.line (fun _ _ => True) (checkReturn returns keyword value t scope)
      (checkReturn returns' (keyword.onLine ρ.line) (value.map (Expr.relabel ρ)) t' scope') := by
  refine (initialType_agrees ρ ht hs value).bind fun i i' hi => ?_
  have hty : (i.getD .nil).Like K (i'.getD .nil) := by
    cases hi with
    | none => exact .nil
    | some h => exact h
  dsimp only
  rw [ht.accepts hr hty, ht.text hr, ht.text hty]
  exact require_agrees ρ.line _ _ _

mutual

theorem alwaysReturns_relabel : ∀ s : Stmt ι, alwaysReturns (s.relabel ρ) = alwaysReturns s
  | .expression _ => rfl
  | .print _ => rfl
  | .var _ => rfl
  | .block body => someReturns_relabel body
  | .ifThen _ _ => rfl
  | .ifElse _ thenBranch elseBranch => by
    rw [Stmt.relabel, alwaysReturns, alwaysReturns, alwaysReturns_relabel thenBranch,
      alwaysReturns_relabel elseBranch]
  | .whileLoop _ _ => rfl
  | .function _ => rfl
  | .returnWith _ _ => rfl
  | .classDecl ⟨_, _, _, _⟩ => rfl
termination_by structural s => s

theorem someReturns_relabel : ∀ ss : List (Stmt ι),
    someReturns (Stmt.relabelAll ρ ss) = someReturns ss
  | [] => rfl
  | s :: rest => by
    rw [Stmt.relabelAll, someReturns, someReturns, alwaysReturns_relabel s,
      someReturns_relabel rest]
termination_by structural ss => ss

end

theorem mustReturn_like {a b : Ty} (h : a.Like K b) : mustReturn b = mustReturn a := by
  cases h <;> rfl

theorem checkPaths_agrees (ht : t.Like K t') (name : Name) {s s' : Signature} (hs : s.Like K s')
    (body : List (Stmt ι)) :
    Agree ρ.line (fun _ _ => True) (checkPaths name s body t scope)
      (checkPaths (name.onLine ρ.line) s' (Stmt.relabelAll ρ body) t' scope') := by
  unfold checkPaths
  rw [mustReturn_like hs.result, someReturns_relabel, ht.text hs.result]
  exact require_agrees ρ.line _ _ _

end

section

variable {ρ : Relabel ι κ}

mutual

/-- A statement on other lines is checked alike. -/
theorem checkStmt_follows (h0 : ρ.line 0 = 0) : ∀ (s : Stmt ι) {K : ClassPairs} {returns returns' : Ty},
    returns.Like K returns' →
    Follows ρ.line Nothing K (checkStmt returns s) (checkStmt returns' (s.relabel ρ))
  | .expression value, _, _, _, _ =>
    Related.bind (ask_follows fun ht hs => typeOf_agrees ρ ht hs value) fun _ _ _ _ _ =>
      Related.pure trivial
  | .print value, _, _, _, _ =>
    Related.bind (ask_follows fun ht hs => typeOf_agrees ρ ht hs value) fun _ _ _ _ _ =>
      Related.pure trivial
  | .var decl, _, _, _, _ =>
    Related.bind (ask_follows fun ht hs => declaredType_agrees ρ ht hs decl) fun _ _ _ _ hty =>
      define_follows decl.name.text hty
  | .block body, _, _, _, hr =>
    inside_follows (fun hs => hs.enter .empty) (checkStmts_follows h0 body hr)
  | .ifThen condition thenBranch, _, _, _, hr =>
    Related.bind (ask_follows (R := Nothing) fun ht hs => checkCondition_agrees ρ h0 ht hs "if" condition)
      fun _ _ _ hle _ => checkStmt_follows h0 thenBranch (hr.mono hle.le)
  | .ifElse condition thenBranch elseBranch, _, _, _, hr =>
    Related.bind (ask_follows (R := Nothing) fun ht hs => checkCondition_agrees ρ h0 ht hs "if" condition)
      fun _ _ _ hle _ => Related.bind (checkStmt_follows h0 thenBranch (hr.mono hle.le))
        fun _ _ _ hle' _ => checkStmt_follows h0 elseBranch ((hr.mono hle.le).mono hle'.le)
  | .whileLoop condition body, _, _, _, hr =>
    Related.bind (ask_follows (R := Nothing) fun ht hs => checkCondition_agrees ρ h0 ht hs "while" condition)
      fun _ _ _ hle _ => checkStmt_follows h0 body (hr.mono hle.le)
  | .function decl, _, _, _, _ => by
    have hname : (Stmt.relabelRoutine ρ decl).name.text = decl.name.text := by
      rw [Stmt.relabelRoutine_eq]
      rfl
    rw [Stmt.relabel, checkStmt, checkStmt, hname]
    exact Related.bind (ask_follows fun _ hs => signature_agrees ρ hs decl) fun _ _ _ _ hs =>
      Related.bind (define_follows decl.name.text hs.ty) fun _ _ _ hle _ =>
        checkRoutine_follows h0 decl (hs.mono hle.le)
  | .returnWith keyword value, _, _, _, hr =>
    ask_follows fun ht hs => checkReturn_agrees ρ ht hs hr keyword value
  | .classDecl ⟨name, superclass, fields, methods⟩, K, _, _, _ => by
    rw [Stmt.relabel, checkStmt, checkStmt]
    refine Related.bind (ask_follows (R := fun K => Option.Rel K.pair) fun ht hs =>
      superclassOf_agrees ρ.line ρ rfl ht hs name superclass) fun K₁ p p' _ hp => ?_
    refine Related.bind (newClass_follows name hp) fun K₂ i j hle hij => ?_
    have hp₂ : Option.Rel K₂.pair p p' := hle.le.option hp
    refine Related.bind (enterMethods_follows ρ name methods hij hp₂) fun K₃ ss ss' hle' hss => ?_
    refine inside_follows (enterClass_like (hle'.le _ _ hij) (hle'.le.option hp₂)) ?_
    exact Related.bind (enterFields_follows ρ fields (hle'.le _ _ hij)) fun _ _ _ hle'' _ =>
      checkRoutines_follows h0 methods (hss.imp fun _ _ h => h.mono hle''.le)
termination_by structural s => s

theorem checkStmts_follows (h0 : ρ.line 0 = 0) : ∀ (ss : List (Stmt ι)) {K : ClassPairs} {returns returns' : Ty},
    returns.Like K returns' →
    Follows ρ.line Nothing K (checkStmts returns ss) (checkStmts returns' (Stmt.relabelAll ρ ss))
  | [], _, _, _, _ => Related.pure trivial
  | s :: rest, _, _, _, hr =>
    Related.bind (checkStmt_follows h0 s hr) fun _ _ _ hle _ => checkStmts_follows h0 rest (hr.mono hle.le)
termination_by structural ss => ss

theorem checkRoutine_follows (h0 : ρ.line 0 = 0) : ∀ (d : FunctionDecl (Stmt ι)) {K : ClassPairs} {s s' : Signature},
    s.Like K s' →
    Follows ρ.line Nothing K (checkRoutine s d) (checkRoutine s' (Stmt.relabelRoutine ρ d))
  | ⟨name, params, _, body⟩, _, _, _, hs =>
    Related.bind (inside_follows (fun hscope => hscope.enter (paramScope_like ρ.line params hs.params))
      (checkStmts_follows h0 body hs.result)) fun _ _ _ hle _ =>
        ask_follows fun ht _ => checkPaths_agrees ρ ht name (hs.mono hle.le) body
termination_by structural d => d

theorem checkRoutines_follows (h0 : ρ.line 0 = 0) : ∀ (ds : List (FunctionDecl (Stmt ι))) {K : ClassPairs}
    {ss ss' : List Signature}, List.Forall₂ (Signature.Like K) ss ss' →
    Follows ρ.line Nothing K (checkRoutines ss ds) (checkRoutines ss' (Stmt.relabelRoutines ρ ds))
  | [], _, _, _, _ => Related.pure trivial
  | d :: rest, _, _, _, hss => by
    cases hss with
    | nil => exact Related.pure trivial
    | cons hs hrest =>
      exact Related.bind (checkRoutine_follows h0 d hs) fun _ _ _ hle _ =>
        checkRoutines_follows h0 rest (hrest.imp fun _ _ h => h.mono hle.le)
termination_by structural ds => ds

end

end

end Typing

/-! ## Checkers -/

/-- The checkers know the same classes under corresponding numbers, and the same global names. -/
structure Checker.Like (K : ClassPairs) (c c' : Checker) : Prop where
  classes : c.classes.Like K c'.classes
  globals : Bindings.Forall₂ (Ty.Like K) c.globals c'.globals

/-- The outcome of a check, with its error on another line. -/
def Checker.outcomeOnLine (f : Nat → Nat) : Except TypeError Unit → Except TypeError Unit
  | .ok u => .ok u
  | .error e => .error ⟨e.cause, f e.line⟩

/-- A program on other lines is judged alike, and what is entered corresponds. -/
theorem Checker.check_agrees {ρ : Relabel ι κ} (h0 : ρ.line 0 = 0) {K : ClassPairs} {c c' : Checker}
    (h : c.Like K c') (program : List (Stmt ι)) :
    (c'.check (Stmt.relabelAll ρ program)).1 = outcomeOnLine ρ.line (c.check program).1 ∧
      ∃ K', K.Grow K' ∧ (c.check program).2.Like K' (c'.check (Stmt.relabelAll ρ program)).2 := by
  have hcheck := Typing.checkStmts_follows h0 program (.void : Ty.Like K .void .void) c.start c'.start
    ⟨h.classes, h.globals, .nil⟩
  rw [check_eq, check_eq]
  generalize Typing.checkStmts .void program c.start = r at hcheck
  generalize Typing.checkStmts .void (Stmt.relabelAll ρ program) c'.start = r' at hcheck
  cases hcheck with
  | ok hle _ hs => exact ⟨rfl, _, hle, hs.classes, hs.scope.globals⟩
  | error hle he hs =>
    cases he
    exact ⟨rfl, _, hle, hs.classes, hs.scope.globals⟩
  | excused he => exact he.elim

end ClassScript
