import ClassScript.Proofs.CheckTrace
import ClassScript.Proofs.ClassOrder

/-!
# Checks keep the classes coherent

A check that ends without an error leads from a coherent table of classes to a coherent one that has
grown by whole classes (`checkStmts_good`). Each new class is compared with its superclass while its
methods and fields are entered, and all types that the check finds mention known classes only
(`typeOf_known`).
-/

set_option autoImplicit false

namespace ClassScript

/-! ## Known types -/

/-- The names of the scope have known types. -/
structure TypeScope.Known (n : ClassId) (s : TypeScope) : Prop where
  globals : ∀ x ty, s.globals.get? x = some ty → ty.Known n
  locals : ∀ b ∈ s.locals, ∀ x ty, b.get? x = some ty → ty.Known n

namespace TypeScope.Known

variable {n : ClassId} {s : TypeScope}

theorem mono (h : s.Known n) {k : ClassId} (hle : n ≤ k) : s.Known k :=
  ⟨fun x ty hx => (h.globals x ty hx).mono hle, fun b hb x ty hx => (h.locals b hb x ty hx).mono hle⟩

theorem lookupLocal? {x : String} {ty : Ty} {locals : List (Bindings Ty)}
    (hx : TypeScope.lookupLocal? x locals = some ty) : ∃ b ∈ locals, b.get? x = some ty := by
  induction locals with
  | nil => cases hx
  | cons b outer ih =>
    unfold TypeScope.lookupLocal? at hx
    split at hx
    next got hb =>
      cases hx
      exact ⟨b, List.mem_cons_self .., hb⟩
    next =>
      obtain ⟨b', hb', hget⟩ := ih hx
      exact ⟨b', List.mem_cons_of_mem b hb', hget⟩

theorem get? (h : s.Known n) {x : String} {ty : Ty} (hx : s.get? x = some ty) : ty.Known n := by
  unfold TypeScope.get? at hx
  split at hx
  next got hl =>
    cases hx
    obtain ⟨b, hb, hget⟩ := lookupLocal? hl
    exact h.locals b hb x _ hget
  next => exact h.globals x ty hx

theorem define (h : s.Known n) {x : String} {ty : Ty} (hty : ty.Known n) :
    (s.define x ty).Known n := by
  have hinsert {b : Bindings Ty} (hb : ∀ y ty', b.get? y = some ty' → ty'.Known n) (y : String)
      (ty' : Ty) (hy : (b.insert x ty).get? y = some ty') : ty'.Known n := by
    rw [Bindings.get?_insert] at hy
    split at hy
    · cases hy
      exact hty
    · exact hb y ty' hy
  obtain ⟨globals, locals⟩ := s
  cases locals with
  | nil => exact ⟨hinsert h.globals, h.locals⟩
  | cons b outer =>
    obtain ⟨hb, ho⟩ := List.forall_mem_cons.1 h.locals
    exact ⟨h.globals, List.forall_mem_cons.2 ⟨hinsert hb, ho⟩⟩

theorem enter (h : s.Known n) {b : Bindings Ty} (hb : ∀ x ty, b.get? x = some ty → ty.Known n) :
    (s.enter b).Known n :=
  ⟨h.globals, List.forall_mem_cons.2 ⟨hb, h.locals⟩⟩

end TypeScope.Known

/-- The members of all classes have known types. -/
structure ClassTable.MembersKnown (t : ClassTable) : Prop where
  fields : ∀ id x ty, t.ownField? id x = some ty → ty.Known t.nextId
  results : ∀ id x s, t.ownMethod? id x = some s → s.result.isNamed = true

theorem ClassTable.MembersKnown.addField {t : ClassTable} (h : t.MembersKnown) {ty : Ty}
    (hty : ty.Known t.nextId) (id : ClassId) (x : String) : (t.addField id x ty).MembersKnown := by
  refine ⟨fun i y ty' hy => ?_, fun i y s hy => h.results i y s (by simpa using hy)⟩
  rw [ownField?_addField] at hy
  rw [nextId_addField]
  split at hy
  · cases hy
    exact hty
  · exact h.fields i y ty' hy

theorem ClassTable.Coherent.members {t : ClassTable} (h : t.Coherent) : t.MembersKnown :=
  ⟨h.known, h.named⟩

namespace Typing

section

variable {t : ClassTable} {scope : TypeScope} {ty : Ty}

theorem field_known (h : t.MembersKnown) {id : ClassId} {x : String}
    (hf : t.findField? id x = some ty) : ty.Known t.nextId := by
  obtain ⟨c, -, hc⟩ := List.exists_of_findSome?_eq_some hf
  exact h.fields c x ty hc

theorem method_known (h : t.MembersKnown) {id : ClassId} {x : String} {s : Signature}
    (hm : t.findMethod? id x = some s) (n : ClassId) : s.ty.Known n := by
  obtain ⟨c, -, hc⟩ := List.exists_of_findSome?_eq_some hm
  exact h.results c x s hc

theorem property_inv {o : Ty} {name : Name} :
    property t o name = .ok ty ↔ ∃ id, o = .object id ∧ property? t id name.text = some ty := by
  unfold property
  cases o with
  | object id => cases hp : property? t id name.text <;> simp [hp]
  | _ => simp

theorem field_inv {o : Ty} {name : Name} :
    field t o name = .ok ty ↔ ∃ id, o = .object id ∧ t.findField? id name.text = some ty := by
  unfold field
  cases o with
  | object id => cases hp : t.findField? id name.text <;> simp [hp]
  | _ => simp

theorem call_inv {line : Nat} {callee : Ty} {args : List Ty} :
    call t line callee args = .ok ty ↔
      (∃ id, callee = .classObject id ∧ ty = .object id ∧
        checkArguments t line (t.name id) (constructorParams t id) args = .ok ()) ∨
      ∃ name params, callee = .function name params ty ∧
        checkArguments t line name params args = .ok () := by
  unfold call
  cases callee with
  | classObject id =>
    simp only [except_bind_ok, except_pure_ok]
    constructor
    · rintro ⟨_, hc, rfl⟩
      exact .inl ⟨id, rfl, rfl, hc⟩
    · rintro (⟨_, hid, rfl, hc⟩ | ⟨_, _, hid, -⟩)
      · cases hid
        exact ⟨(), hc, rfl⟩
      · cases hid
  | function name params result =>
    simp only [except_bind_ok, except_pure_ok]
    constructor
    · rintro ⟨_, hc, rfl⟩
      exact .inr ⟨name, params, rfl, hc⟩
    · rintro (⟨_, hid, -⟩ | ⟨_, _, hid, hc⟩)
      · cases hid
      · cases hid
        exact ⟨(), hc, rfl⟩
  | _ => simp

theorem property?_known (h : t.MembersKnown) {id : ClassId} {x : String}
    (hp : property? t id x = some ty) : ty.Known t.nextId := by
  unfold property? at hp
  split at hp
  next declared hf =>
    cases hp
    exact field_known h hf
  next =>
    obtain ⟨s, hs, rfl⟩ := Option.map_eq_some_iff.1 hp
    exact method_known h hs _

/-- Expressions have known types where the names and the members have. -/
theorem typeOf_known (h : t.MembersKnown) (hs : scope.Known t.nextId) :
    ∀ (e : Expr NodeId) {ty : Ty}, typeOf t scope e = .ok ty → ty.Known t.nextId
  | .literal value, _, hty => by
    cases hty
    cases value <;> trivial
  | .grouping inner, _, hty => typeOf_known h hs inner hty
  | .unary _ _, _, hty => by
    rcases typeOf_unary.1 hty with ⟨-, hi⟩ | ⟨-, _, -, ⟨-, rfl⟩ | ⟨-, -, rfl⟩⟩
    · obtain ⟨_, _, _, -, -, -, rfl⟩ := increment_ok.1 hi
      trivial
    · trivial
    · trivial
  | .suffixed _ _, _, hty => by
    obtain ⟨_, _, _, -, -, -, rfl⟩ := increment_ok.1 hty
    trivial
  | .binary _ _ _, _, hty => by
    obtain ⟨l, r, -, -, hb⟩ := typeOf_binary.1 hty
    exact binary_known hb
  | .logical _ _ _, _, hty => by
    obtain ⟨_, _, -, -, -, rfl⟩ := typeOf_logical.1 hty
    trivial
  | .variable _ _, _, hty => hs.get? (lookUp_ok.1 hty)
  | .assign _ _ _, _, hty => hs.get? (typeOf_assign.1 hty).1
  | .call callee _ _, _, hty => by
    obtain ⟨f, _, hf, -, hc⟩ := typeOf_call.1 hty
    rcases call_inv.1 hc with ⟨_, -, rfl, -⟩ | ⟨_, _, rfl, -⟩
    · trivial
    · exact Ty.known_of_isNamed (typeOf_known h hs callee hf) _
  | .get _ _, _, hty => by
    obtain ⟨_, -, hp⟩ := typeOf_get.1 hty
    obtain ⟨_, -, hp⟩ := property_inv.1 hp
    exact property?_known h hp
  | .set _ _ _, _, hty => by
    obtain ⟨_, _, -, hf, -⟩ := typeOf_set.1 hty
    obtain ⟨_, -, hf⟩ := field_inv.1 hf
    exact field_known h hf
  | .this _ _, _, hty => hs.get? (lookUp_ok.1 hty)
  | .super _ _ _, _, hty => by
    obtain ⟨_, _, -, hm, rfl⟩ := superMethod_ok.1 hty
    exact method_known h hm _
termination_by structural e => e
where
  binary_known {operator : Token} {l r ty : Ty} (hb : binary t operator l r = .ok ty) :
      ty.Known t.nextId := by
    unfold binary at hb
    dsimp only at hb
    split at hb <;> (try split at hb) <;> cases hb <;> trivial

/-! ## Declared types -/

theorem namedType_isNamed {a : Token} (h : namedType scope a = .ok ty) : ty.isNamed = true := by
  unfold namedType at h
  split at h
  · cases h; rfl
  · cases h; rfl
  · cases h; rfl
  · cases h; rfl
  · split at h
    · cases h; rfl
    · cases h

theorem namedTypeOption_isNamed {a : Option Token} (h : namedTypeOption scope a = .ok (some ty)) :
    ty.isNamed = true := by
  cases a with
  | none => cases h
  | some a =>
    simp only [namedTypeOption] at h
    cases hn : namedType scope a with
    | error e => rw [hn] at h; cases h
    | ok got =>
      rw [hn] at h
      cases h
      exact namedType_isNamed hn

theorem resultType_isNamed {a : Option Token} (h : resultType scope a = .ok ty) :
    ty.isNamed = true := by
  cases a with
  | none => cases h; rfl
  | some a => exact namedType_isNamed h

theorem signature_known {σ : Type} {d : FunctionDecl σ} {s : Signature}
    (h : signature d scope = .ok s) (n : ClassId) : s.ty.Known n :=
  resultType_isNamed (signature_ok.1 h).2.2

/-- A variable has its declared type, or else that of its initial value. -/
theorem variableType_cases {name : Name} {declared initial : Option Ty}
    (h : variableType t name declared initial = .ok ty) :
    (declared = some ty ∧
        ((∃ got, initial = some got ∧ t.accepts ty got = true) ∨
          initial = none ∧ ty.requiresInitializer = false)) ∨
      declared = none ∧ ty = initial.getD .nil := by
  unfold variableType at h
  split at h
  next d i =>
    split at h
    next ha =>
      cases h
      exact .inl ⟨rfl, .inl ⟨i, rfl, ha⟩⟩
    · cases h
  next d =>
    split at h
    · cases h
    next hr =>
      cases h
      exact .inl ⟨rfl, .inr ⟨rfl, by simpa using hr⟩⟩
  · cases h
  next i _ =>
    cases h
    exact .inr ⟨rfl, rfl⟩
  · cases h
    exact .inr ⟨rfl, rfl⟩

theorem declaredType_known (h : t.MembersKnown) (hs : scope.Known t.nextId)
    {d : VarDecl NodeId} (hd : declaredType d t scope = .ok ty) : ty.Known t.nextId := by
  obtain ⟨declared, initial, hn, hi, hv⟩ := declaredType_ok.1 hd
  rcases variableType_cases hv with ⟨rfl, -⟩ | ⟨-, rfl⟩
  · exact Ty.known_of_isNamed (namedTypeOption_isNamed hn) _
  · rcases initialType_ok.1 hi with ⟨-, rfl⟩ | ⟨e, got, -, rfl, hg⟩
    · trivial
    · exact typeOf_known h hs e hg

theorem checkOverride_ok {p : ClassId} {name : Name} {s : Signature} {u : Unit} :
    checkOverride t p name s = .ok u ↔
      t.findField? p name.text = none ∧
        ∀ inherited, t.findMethod? p name.text = some inherited →
          overrides t inherited s = true := by
  unfold checkOverride
  cases t.findField? p name.text with
  | some ty => simp
  | none => cases hm : t.findMethod? p name.text <;> simp [require_ok]

theorem checkField_ok {id : ClassId} {name : Name} {u : Unit} :
    checkField t id name ty = .ok u ↔
      t.findMethod? id name.text = none ∧
        ∀ inherited, (t.superclass? id).bind (fun p => t.findField? p name.text) = some inherited →
          inherited.same ty = true := by
  simp only [checkField, except_bind_ok, require_ok, Option.isNone_iff_eq_none]
  cases (t.superclass? id).bind fun p => t.findField? p name.text with
  | none => simp [except_pure_ok]
  | some inherited => simp [require_ok]

end

end Typing

/-! ## Members of a new class -/

namespace ClassTable

/-- The tables differ in members of one class only. -/
structure Filling (id : ClassId) (t u : ClassTable) : Prop where
  size : u.nextId = t.nextId
  same : ∀ i, i ≠ id → u.classes[i]? = t.classes[i]?
  ancestors : ∀ i : ClassId, u.classes[i]?.map (·.ancestors) = t.classes[i]?.map (·.ancestors)
  name : ∀ i, u.name i = t.name i

namespace Filling

variable {t u v : ClassTable} {id i : ClassId}

theorem refl (id : ClassId) (t : ClassTable) : Filling id t t :=
  ⟨rfl, fun _ _ => rfl, fun _ => rfl, fun _ => rfl⟩

theorem trans (h : Filling id t u) (k : Filling id u v) : Filling id t v where
  size := k.size.trans h.size
  same i hi := (k.same i hi).trans (h.same i hi)
  ancestors i := (k.ancestors i).trans (h.ancestors i)
  name i := (k.name i).trans (h.name i)

theorem addMethod (id : ClassId) (t : ClassTable) (x : String) (s : Signature) :
    Filling id t (t.addMethod id x s) := by
  refine ⟨by simp, fun i hi => ?_, fun i => ?_, by simp⟩
  · simp [classes_addMethod, Ne.symm hi]
  · rw [classes_addMethod]
    by_cases h : id = i <;> cases t.classes[i]? <;> simp [h]

theorem addField (id : ClassId) (t : ClassTable) (x : String) (ty : Ty) :
    Filling id t (t.addField id x ty) := by
  refine ⟨by simp, fun i hi => ?_, fun i => ?_, by simp⟩
  · simp [classes_addField, Ne.symm hi]
  · rw [classes_addField]
    by_cases h : id = i <;> cases t.classes[i]? <;> simp [h]

theorem lineage (h : Filling id t u) (i : ClassId) : u.lineage i = t.lineage i := by
  have ha := h.ancestors i
  unfold ClassTable.lineage
  cases hu : u.classes[i]? <;> cases ht : t.classes[i]? <;> simp_all

theorem superclass? (h : Filling id t u) (i : ClassId) : u.superclass? i = t.superclass? i := by
  have ha := h.ancestors i
  unfold ClassTable.superclass?
  cases hu : u.classes[i]? <;> cases ht : t.classes[i]? <;> simp_all

theorem ownMethod? (h : Filling id t u) (hi : i ≠ id) (x : String) :
    u.ownMethod? i x = t.ownMethod? i x := by
  simp only [ClassTable.ownMethod?, h.same i hi]

/-- The members of a new class are no members of older ones. -/
theorem grows {s : ClassTable} (hg : Grows s t) (h : Filling s.nextId t u) : Grows s u where
  size := by rw [h.size]; exact hg.size
  same i hi := (h.same i (Nat.ne_of_lt hi)).trans (hg.same i hi)

end Filling

section

variable (t : ClassTable) (x : String) (parent : Option ClassId)

/-- A new class has no members. -/
@[simp] theorem ownMethod?_add (i : ClassId) (y : String) :
    (t.add x parent).ownMethod? i y = t.ownMethod? i y := by
  unfold ownMethod?
  rw [classes_add]
  split
  next hi =>
    have hnone : t.classes[i]? = none := Array.getElem?_eq_none (Nat.le_of_eq hi.symm)
    simp [hnone]
  next => rfl

@[simp] theorem ownField?_add (i : ClassId) (y : String) :
    (t.add x parent).ownField? i y = t.ownField? i y := by
  unfold ownField?
  rw [classes_add]
  split
  next hi =>
    have hnone : t.classes[i]? = none := Array.getElem?_eq_none (Nat.le_of_eq hi.symm)
    simp [hnone]
  next => rfl

end

end ClassTable

open ClassTable

namespace Typing

variable {st st' : TypeState} {id : ClassId} {parent : Option ClassId}

/-- Methods are entered one by one, the last one of a name stays, and each signature fits. -/
theorem enterMethods_inv {className : Name} {methods : List (FunctionDecl (Stmt NodeId))}
    {signatures : List Signature}
    (h : enterMethods id className parent methods st = .ok signatures st')
    (hid : id < st.classes.nextId) :
    Filling id st.classes st'.classes ∧
      (∀ i x, st'.classes.ownField? i x = st.classes.ownField? i x) ∧
      (∀ b : Bindings Signature, (∀ x, st.classes.ownMethod? id x = b.get? x) →
        ∀ x, st'.classes.ownMethod? id x =
          (((methods.map fun d => d.name.text).zip signatures).foldl
            (fun b p => b.insert p.1 p.2) b).get? x) ∧
      List.Forall₂ (fun s d => ∃ t, Filling id st.classes t ∧
        (∀ i x, t.ownField? i x = st.classes.ownField? i x) ∧
        methodSignature className parent d t st.scope = .ok s) signatures methods := by
  induction methods generalizing st signatures with
  | nil =>
    obtain ⟨rfl, rfl⟩ := pure_ok.1 h
    exact ⟨.refl id _, fun _ _ => rfl, fun b hb => hb, .nil⟩
  | cons d rest ih =>
    obtain ⟨s, others, rfl, hs, ho⟩ := enterMethods_cons.1 h
    have hadd := Filling.addMethod id st.classes d.name.text s
    obtain ⟨hfill, hfields, hmethods, hall⟩ := ih ho (by simpa using hid)
    refine ⟨hadd.trans hfill, fun i x => by rw [hfields]; simp, fun b hb => ?_, ?_⟩
    · refine hmethods (b.insert d.name.text s) fun x => ?_
      rw [ownMethod?_addMethod, Bindings.get?_insert, hb]
      simp [hid]
    · refine .cons ⟨_, .refl id _, fun _ _ => rfl, hs⟩ (hall.imp ?_)
      intro s' d' h'
      obtain ⟨t, ht, hf, hs'⟩ := h'
      exact ⟨t, hadd.trans ht, fun i x => by rw [hf]; simp, hs'⟩

/-- Fields are entered in one class, and they change no method. -/
theorem enterFields_filling {fields : List (VarDecl NodeId)} {u : Unit}
    (h : enterFields id fields st = .ok u st') :
    Filling id st.classes st'.classes ∧
      ∀ i x, st'.classes.ownMethod? i x = st.classes.ownMethod? i x := by
  induction fields generalizing st with
  | nil =>
    obtain ⟨-, rfl⟩ := pure_ok.1 h
    exact ⟨.refl id _, fun _ _ => rfl⟩
  | cons d rest ih =>
    obtain ⟨ty, -, hr⟩ := enterFields_cons.1 h
    obtain ⟨hfill, hmethods⟩ := ih hr
    exact ⟨(Filling.addField id st.classes d.name.text ty).trans hfill,
      fun i x => by rw [hmethods]; simp⟩

/-- Fields are entered one by one, and each fits the methods of the class and what it inherits. -/
theorem enterFields_inv {fields : List (VarDecl NodeId)} {u : Unit}
    (h : enterFields id fields st = .ok u st') (hk : st.classes.MembersKnown)
    (hs : st.scope.Known st.classes.nextId) :
    st'.classes.MembersKnown ∧
      ∀ x ty, st'.classes.ownField? id x = some ty → st.classes.ownField? id x = some ty ∨
        ∃ t, ∃ d ∈ fields, Filling id st.classes t ∧
          (∀ i y, t.ownMethod? i y = st.classes.ownMethod? i y) ∧
          d.name.text = x ∧ checkField t id d.name ty = .ok () := by
  induction fields generalizing st with
  | nil =>
    obtain ⟨-, rfl⟩ := pure_ok.1 h
    exact ⟨hk, fun _ _ hx => .inl hx⟩
  | cons d rest ih =>
    obtain ⟨ty, hty, hr⟩ := enterFields_cons.1 h
    obtain ⟨hdeclared, hcheck⟩ := fieldType_ok.1 hty
    have hknown : ty.Known st.classes.nextId := declaredType_known hk hs hdeclared
    have hadd := Filling.addField id st.classes d.name.text ty
    have hmembers := hk.addField hknown id d.name.text
    obtain ⟨hk', hall⟩ := ih hr hmembers (by simpa using hs)
    refine ⟨hk', fun x ty' hx => ?_⟩
    rcases hall x ty' hx with hold | ⟨t, d', hd', ht, hm, hname, hc⟩
    · dsimp only at hold
      rw [ownField?_addField] at hold
      split at hold
      next hsame =>
        cases hold
        exact .inr ⟨_, d, List.mem_cons_self .., .refl id _, fun _ _ => rfl, hsame.2.2, hcheck⟩
      next => exact .inl hold
    · exact .inr ⟨t, d', List.mem_cons_of_mem d hd', hadd.trans ht, fun i y => by rw [hm]; simp,
        hname, hc⟩

end Typing

/-! ## Checks -/

/-- The classes are coherent, and the names in force have known types. -/
structure TypeState.Good (st : TypeState) : Prop where
  classes : st.classes.Coherent
  scope : st.scope.Known st.classes.nextId

namespace Typing

variable {st st' : TypeState}

theorem enterClass_known {n : ClassId} {scope : TypeScope} (h : scope.Known n) (id : ClassId)
    (parent : Option ClassId) : (enterClass id parent scope).Known n := by
  have hone {x : String} {i : ClassId} (y : String) (ty : Ty)
      (hy : (Bindings.single x (Ty.object i)).get? y = some ty) : ty.Known n := by
    rw [Bindings.get?_single] at hy
    split at hy
    · cases hy
      trivial
    · cases hy
  unfold enterClass
  cases parent with
  | none => exact h.enter hone
  | some p => exact (h.enter hone).enter hone

theorem paramScope_known {n : ClassId} {scope : TypeScope} {params : List Param} {types : List Ty}
    (h : paramTypes scope params = .ok types) (x : String) (ty : Ty)
    (hx : (paramScope params types).get? x = some ty) : ty.Known n := by
  have hmem := (List.of_mem_zip (Bindings.get?_ofList hx)).2
  clear hx
  induction params generalizing types with
  | nil =>
    cases h
    cases hmem
  | cons p rest ih =>
    obtain ⟨first, others, rfl, hn, -, ho⟩ := paramTypes_cons.1 h
    rcases List.mem_cons.1 hmem with rfl | hm
    · exact Ty.known_of_isNamed (namedType_isNamed hn) n
    · exact ih ho hm

theorem exists_of_mem_zip {R : Signature → FunctionDecl (Stmt NodeId) → Prop}
    {signatures : List Signature} {methods : List (FunctionDecl (Stmt NodeId))}
    (h : List.Forall₂ R signatures methods) {x : String} {s : Signature}
    (hm : (x, s) ∈ (methods.map fun d => d.name.text).zip signatures) :
    ∃ d ∈ methods, d.name.text = x ∧ R s d := by
  induction h with
  | nil => cases hm
  | @cons s' d others rest hr _ ih =>
    rcases List.mem_cons.1 hm with he | hm
    · cases he
      exact ⟨d, List.mem_cons_self .., rfl, hr⟩
    · obtain ⟨d', hd', h'⟩ := ih hm
      exact ⟨d', List.mem_cons_of_mem d hd', h'⟩

/-- A class whose methods and fields have been entered: its superclass, the signatures of its methods,
and the states after its methods and its fields. -/
structure ClassEntered (decl : ClassDecl NodeId (Stmt NodeId)) (st : TypeState)
    (parent : Option ClassId) (signatures : List Signature) (entered filled : TypeState) :
    Prop where
  superclass : superclassOf decl.name decl.superclass st.classes st.scope = .ok parent
  methods :
    enterMethods st.classes.nextId decl.name parent decl.methods
      ⟨st.classes.add decl.name.text parent,
        st.scope.define decl.name.text (.classObject st.classes.nextId)⟩ =
      .ok signatures entered
  fields :
    enterFields st.classes.nextId decl.fields
      ⟨entered.classes, enterClass st.classes.nextId parent entered.scope⟩ = .ok () filled

theorem ClassChecked.entered {decl : ClassDecl NodeId (Stmt NodeId)} {parent : Option ClassId}
    {signatures : List Signature} {entered filled : TypeState}
    (h : ClassChecked decl st st' parent signatures entered filled) :
    ClassEntered decl st parent signatures entered filled :=
  ⟨h.superclass, h.methods, h.fields⟩

namespace ClassEntered

variable {decl : ClassDecl NodeId (Stmt NodeId)} {parent : Option ClassId}
  {signatures : List Signature}
  {entered filled : TypeState} (h : ClassEntered decl st parent signatures entered filled)

include h

/-- The superclass is an older class. -/
theorem older (hg : st.Good) (p : ClassId) (hp : parent = some p) : p < st.classes.nextId := by
  rcases superclassOf_ok.1 h.superclass with ⟨-, hn⟩ | ⟨s, id, -, hid, -, hget⟩
  · rw [hn] at hp
    cases hp
  · rw [hid] at hp
    cases hp
    exact hg.scope.get? hget

theorem scope : entered.scope =
    st.scope.define decl.name.text (.classObject st.classes.nextId) :=
  (enterMethods_scope h.methods).1

theorem methods_filling :
    Filling st.classes.nextId (st.classes.add decl.name.text parent) entered.classes :=
  (enterMethods_inv h.methods (by simp)).1

/-- The last signature of a name is that of the method. -/
theorem enteredMethod? (x : String) : entered.classes.ownMethod? st.classes.nextId x =
    (Bindings.ofList ((decl.methods.map fun d => d.name.text).zip signatures)).get? x := by
  refine (enterMethods_inv h.methods (by simp)).2.2.1 .empty (fun y => ?_) x
  cases hm : st.classes.ownMethod? st.classes.nextId y with
  | none => simp [hm]
  | some s => exact absurd (ownMethod?_lt hm) (Nat.lt_irrefl _)

/-- Each signature was entered when it fitted what the class inherits. -/
theorem signed {x : String} {s : Signature}
    (hx : entered.classes.ownMethod? st.classes.nextId x = some s) :
    ∃ d ∈ decl.methods, d.name.text = x ∧ ∃ t,
      Filling st.classes.nextId (st.classes.add decl.name.text parent) t ∧
        methodSignature decl.name parent d t
          (st.scope.define decl.name.text (.classObject st.classes.nextId)) = .ok s := by
  rw [h.enteredMethod?] at hx
  obtain ⟨d, hd, hname, t, ht, -, hs⟩ :=
    exists_of_mem_zip (enterMethods_inv h.methods (by simp)).2.2.2 (Bindings.get?_ofList hx)
  exact ⟨d, hd, hname, t, ht, hs⟩

theorem enteredField? (i : ClassId) (x : String) :
    entered.classes.ownField? i x = st.classes.ownField? i x := by
  rw [(enterMethods_inv h.methods (by simp)).2.1]
  simp

/-- After the methods have been entered, all members have known types. -/
theorem members (hg : st.Good) : entered.classes.MembersKnown := by
  have hgrown := grows_add st.classes decl.name.text parent
  have hfill := h.methods_filling
  constructor
  case fields =>
    intro i x ty hx
    rw [h.enteredField?] at hx
    rw [hfill.size]
    exact (hg.classes.known i x ty hx).mono hgrown.size
  case results =>
    intro i x s hx
    by_cases hi : i = st.classes.nextId
    · subst hi
      obtain ⟨d, -, -, t, -, hs⟩ := h.signed hx
      exact resultType_isNamed (signature_ok.1 (methodSignature_ok.1 hs).1).2.2
    · rw [hfill.ownMethod? hi, ownMethod?_add] at hx
      exact hg.classes.named i x s hx

/-- The names in force among the members have known types. -/
theorem membersScope_known (hg : st.Good) :
    (enterClass st.classes.nextId parent entered.scope).Known entered.classes.nextId := by
  rw [h.scope, h.methods_filling.size]
  refine enterClass_known ((hg.scope.mono (by simp)).define ?_) _ _
  show st.classes.nextId < (st.classes.add decl.name.text parent).nextId
  simp

theorem filling : Filling st.classes.nextId (st.classes.add decl.name.text parent) filled.classes :=
  h.methods_filling.trans (enterFields_filling h.fields).1

theorem filledMethod? (i : ClassId) (x : String) :
    filled.classes.ownMethod? i x = entered.classes.ownMethod? i x :=
  (enterFields_filling h.fields).2 i x

theorem name : filled.classes.name st.classes.nextId = decl.name.text := by
  rw [h.filling.name]
  simp [ClassTable.name, classes_add]

theorem grows : Grows st.classes filled.classes :=
  h.filling.grows (grows_add st.classes decl.name.text parent)

theorem lt : st.classes.nextId < filled.classes.nextId := by
  rw [h.filling.size, nextId_add]
  exact Nat.lt_succ_self _

/-- What a class adds to the table, whose members have been entered. -/
theorem newest (hg : st.Good) : Newest st.classes filled.classes parent := by
  have hgrown := grows_add st.classes decl.name.text parent
  have hfill := h.methods_filling
  have hboth := h.filling
  have hold := h.older hg
  have hmethods' := h.filledMethod?
  have hfill' := (enterFields_filling h.fields).1
  obtain ⟨hmembers', hall'⟩ :=
    enterFields_inv h.fields (h.members hg) (h.membersScope_known hg)
  dsimp only at hfill' hall'
  constructor
  case size => rw [hboth.size, nextId_add]
  case ancestors => rw [hboth.ancestors, classes_add, if_pos rfl, Option.map_some]
  case older => exact hold
  case methods =>
    intro x s hx
    rw [hmethods'] at hx
    obtain ⟨d, -, rfl, t, ht, hs⟩ := h.signed hx
    obtain ⟨hsig, -, hover⟩ := methodSignature_ok.1 hs
    refine ⟨resultType_isNamed (signature_ok.1 hsig).2.2, fun p hp => ?_⟩
    obtain ⟨hfield, hinherited⟩ := checkOverride_ok.1 (hover p hp)
    have hgrows' := ht.grows hgrown
    rw [hgrows'.findField? hg.classes (hold p hp)] at hfield
    rw [hgrows'.findMethod? hg.classes (hold p hp)] at hinherited
    refine ⟨hfield, fun inherited hi => overrides_mono (fun i j hij => ?_) (hinherited inherited hi)⟩
    rw [isSubclass_iff, ht.lineage] at hij
    rw [isSubclass_iff, hboth.lineage]
    exact hij
  case fields =>
    intro x ty hx
    have hknown := hmembers'.fields _ x ty hx
    rcases hall' x ty hx with hold' | ⟨t, d, -, ht, hm, rfl, hc⟩
    · rw [h.enteredField?] at hold'
      exact absurd (ownField?_lt hold') (Nat.lt_irrefl _)
    · obtain ⟨hnomethod, hinherited⟩ := checkField_ok.1 hc
      have hgrows' := (hfill.trans ht).grows hgrown
      refine ⟨hknown, ?_, fun p inherited hp hi => ?_⟩
      · rw [ClassTable.findMethod?, ht.lineage] at hnomethod
        rw [ClassTable.findMethod?, hfill'.lineage]
        simpa only [hm, hmethods'] using hnomethod
      · refine (Ty.same_iff _ _).1 (hinherited inherited ?_)
        have hsuper : t.superclass? st.classes.nextId = parent := by
          rw [(hfill.trans ht).superclass?]
          simp [ClassTable.superclass?, classes_add, head?_lineageOption]
        rw [hsuper, hp, Option.bind_some, hgrows'.findField? hg.classes (hold p hp)]
        exact hi
  case initializer =>
    intro s hs
    rw [ClassTable.initializer?, hboth.name, hmethods'] at hs
    obtain ⟨d, -, hd, t, -, hsig⟩ := h.signed hs
    have hinit := (methodSignature_ok.1 hsig).2.1
    have hname : (st.classes.add decl.name.text parent).name st.classes.nextId =
        decl.name.text := by
      simp [ClassTable.name, classes_add]
    rw [hname] at hd
    rw [hd] at hinit
    simpa [Ty.same_iff, Ty.erase] using hinit

/-- The own fields of a class are those that it declares. -/
theorem declared (hg : st.Good) {x : String} {ty : Ty}
    (hx : filled.classes.ownField? st.classes.nextId x = some ty) :
    ∃ d ∈ decl.fields, d.name.text = x := by
  obtain ⟨-, hall⟩ := enterFields_inv h.fields (h.members hg) (h.membersScope_known hg)
  rcases hall x ty hx with hold | ⟨-, d, hd, -, -, hname, -⟩
  · rw [h.enteredField?] at hold
    exact absurd (ownField?_lt hold) (Nat.lt_irrefl _)
  · exact ⟨d, hd, hname⟩

/-- After the members of a class have been entered, the classes are coherent. -/
theorem coherent (hg : st.Good) : filled.classes.Coherent :=
  hg.classes.newest h.grows (h.newest hg)

end ClassEntered

theorem good_enter {st : TypeState} (hg : st.Good) {b : Bindings Ty}
    (hb : ∀ x ty, b.get? x = some ty → ty.Known st.classes.nextId) :
    TypeState.Good ⟨st.classes, st.scope.enter b⟩ :=
  ⟨hg.classes, hg.scope.enter hb⟩

theorem good_inside {st inner : TypeState} (hg : st.Good) (hi : inner.Good)
    (hgrow : Grows st.classes inner.classes) : TypeState.Good ⟨inner.classes, st.scope⟩ :=
  ⟨hi.classes, hg.scope.mono hgrow.size⟩

theorem good_define {st : TypeState} (hg : st.Good) {x : String} {ty : Ty}
    (hty : ty.Known st.classes.nextId) : TypeState.Good ⟨st.classes, st.scope.define x ty⟩ :=
  ⟨hg.classes, hg.scope.define hty⟩

/-- Outside the class, its name is known together with those from before. -/
theorem ClassEntered.good_outer {decl : ClassDecl NodeId (Stmt NodeId)} {parent : Option ClassId}
    {signatures : List Signature} {entered filled : TypeState}
    (h : ClassEntered decl st parent signatures entered filled) (hg : st.Good) :
    TypeState.Good ⟨filled.classes, entered.scope⟩ := by
  refine ⟨h.coherent hg, ?_⟩
  rw [h.scope]
  exact (hg.scope.mono h.grows.size).define h.lt

/-- After the fields of a class have been entered, its methods are checked among coherent classes. -/
theorem ClassEntered.good {decl : ClassDecl NodeId (Stmt NodeId)} {parent : Option ClassId}
    {signatures : List Signature} {entered filled : TypeState}
    (h : ClassEntered decl st parent signatures entered filled) (hg : st.Good) : filled.Good := by
  refine ⟨h.coherent hg, ?_⟩
  rw [enterFields_scope h.fields]
  exact enterClass_known (h.good_outer hg).scope _ parent

theorem ClassChecked.signed {decl : ClassDecl NodeId (Stmt NodeId)} {parent : Option ClassId}
    {signatures : List Signature} {entered filled : TypeState}
    (h : ClassChecked decl st st' parent signatures entered filled) :
    List.Forall₂ (fun s d => ∃ scope, signature d scope = .ok s) signatures decl.methods :=
  (enterMethods_scope h.methods).2.imp fun _ _ hs => ⟨_, hs⟩

mutual

/-- A check that ends without an error keeps the classes coherent, and they grow by whole classes. -/
theorem checkStmt_good : ∀ (s : Stmt NodeId) {returns : Ty} {u : Unit} {st st' : TypeState},
    st.Good → checkStmt returns s st = .ok u st' → st'.Good ∧ Grows st.classes st'.classes
  | .expression _, _, _, _, _, hg, h => by
    obtain ⟨-, rfl⟩ := checkStmt_expression.1 h
    exact ⟨hg, .refl _⟩
  | .print _, _, _, _, _, hg, h => by
    obtain ⟨-, rfl⟩ := checkStmt_print.1 h
    exact ⟨hg, .refl _⟩
  | .var decl, _, _, _, _, hg, h => by
    obtain ⟨ty, hty, rfl⟩ := checkStmt_var.1 h
    exact ⟨good_define hg (declaredType_known hg.classes.members hg.scope hty), .refl _⟩
  | .block body, _, _, _, _, hg, h => by
    obtain ⟨inner, hi, rfl⟩ := checkStmt_block.1 h
    have hin := good_enter hg (b := .empty) (by simp)
    obtain ⟨hgood, hgrow⟩ := checkStmts_good body hin hi
    exact ⟨good_inside hg hgood hgrow, hgrow⟩
  | .ifThen _ thenBranch, _, _, _, _, hg, h =>
    checkStmt_good thenBranch hg (checkStmt_ifThen.1 h).2
  | .ifElse _ thenBranch elseBranch, _, _, _, _, hg, h => by
    obtain ⟨-, mid, ht, he⟩ := checkStmt_ifElse.1 h
    obtain ⟨hgood, hgrow⟩ := checkStmt_good thenBranch hg ht
    obtain ⟨hgood', hgrow'⟩ := checkStmt_good elseBranch hgood he
    exact ⟨hgood', hgrow.trans hgrow'⟩
  | .whileLoop _ body, _, _, _, _, hg, h =>
    checkStmt_good body hg (checkStmt_whileLoop.1 h).2
  | .function decl, _, _, _, _, hg, h => by
    obtain ⟨s, hs, hr⟩ := checkStmt_function.1 h
    have hin := good_define hg (x := decl.name.text) (signature_known hs _)
    obtain ⟨hgood, hgrow⟩ := checkRoutine_good decl hin ⟨_, hs⟩ hr
    exact ⟨hgood, hgrow⟩
  | .returnWith _ _, _, _, _, _, hg, h => by
    obtain ⟨-, rfl⟩ := checkStmt_returnWith.1 h
    exact ⟨hg, .refl _⟩
  | .classDecl ⟨_, _, _, methods⟩, _, _, _, _, hg, h => by
    obtain ⟨parent, signatures, entered, filled, hclass⟩ := checkStmt_classDecl.1 h
    obtain ⟨last, hr, rfl⟩ := hclass.routines
    obtain ⟨hlast, hgrow⟩ :=
      checkRoutines_good methods (hclass.entered.good hg) hclass.signed hr
    have hout := good_inside (hclass.entered.good_outer hg) hlast hgrow
    exact ⟨hout, hclass.entered.grows.trans hgrow⟩
termination_by structural s => s

theorem checkStmts_good : ∀ (ss : List (Stmt NodeId)) {returns : Ty} {u : Unit}
    {st st' : TypeState}, st.Good → checkStmts returns ss st = .ok u st' →
    st'.Good ∧ Grows st.classes st'.classes
  | [], _, _, _, _, hg, h => by
    obtain rfl := checkStmts_nil.1 h
    exact ⟨hg, .refl _⟩
  | s :: rest, _, _, _, _, hg, h => by
    obtain ⟨mid, hs, hr⟩ := checkStmts_cons.1 h
    obtain ⟨hgood, hgrow⟩ := checkStmt_good s hg hs
    obtain ⟨hgood', hgrow'⟩ := checkStmts_good rest hgood hr
    exact ⟨hgood', hgrow.trans hgrow'⟩
termination_by structural ss => ss

theorem checkRoutine_good : ∀ (d : FunctionDecl (Stmt NodeId)) {s : Signature} {u : Unit}
    {st st' : TypeState}, st.Good → (∃ scope, signature d scope = .ok s) →
    checkRoutine s d st = .ok u st' → st'.Good ∧ Grows st.classes st'.classes
  | ⟨_, params, _, body⟩, s, _, st, _, hg, hsig, h => by
    obtain ⟨inner, hi, -, rfl⟩ := checkRoutine_ok.1 h
    obtain ⟨scope, hs⟩ := hsig
    have hin := good_enter hg (paramScope_known (signature_ok.1 hs).2.1)
    obtain ⟨hgood, hgrow⟩ := checkStmts_good body hin hi
    exact ⟨good_inside hg hgood hgrow, hgrow⟩
termination_by structural d => d

theorem checkRoutines_good : ∀ (ds : List (FunctionDecl (Stmt NodeId)))
    {signatures : List Signature} {u : Unit} {st st' : TypeState}, st.Good →
    List.Forall₂ (fun s d => ∃ scope, signature d scope = .ok s) signatures ds →
    checkRoutines signatures ds st = .ok u st' → st'.Good ∧ Grows st.classes st'.classes
  | [], _, _, _, _, hg, .nil, h => by
    obtain ⟨-, rfl⟩ := pure_ok.1 h
    exact ⟨hg, .refl _⟩
  | d :: rest, _, _, _, _, hg, .cons hs hall, h => by
    obtain ⟨mid, hd, hr⟩ := checkRoutines_cons.1 h
    obtain ⟨hgood, hgrow⟩ := checkRoutine_good d hg hs hd
    obtain ⟨hgood', hgrow'⟩ := checkRoutines_good rest hgood hall hr
    exact ⟨hgood', hgrow.trans hgrow'⟩
termination_by structural ds => ds

end

end Typing

/-- The classes of a checker are coherent, and its global names have known types. -/
theorem Checker.new_good : Checker.new.start.Good := by
  have hown (id : ClassId) (x : String) : ClassTable.empty.ownMethod? id x = none := rfl
  have hfield (id : ClassId) (x : String) : ClassTable.empty.ownField? id x = none := rfl
  have hsuper (id : ClassId) : ClassTable.empty.superclass? id = none := rfl
  constructor
  case classes =>
    show ClassTable.empty.Coherent
    constructor
    case lineage => exact fun id hid => absurd hid (Nat.not_lt_zero id)
    case initializer => simp [ClassTable.initializer?, hown]
    all_goals simp [hown, hfield, hsuper]
  case scope =>
    refine ⟨fun x ty hx => ?_, fun b hb => absurd hb List.not_mem_nil⟩
    have hx : (Bindings.single "clock" (Ty.function "clock" [] .number)).get? x = some ty := hx
    rw [Bindings.get?_single] at hx
    split at hx
    · cases hx
      rfl
    · cases hx

/-- A check that ends without an error leads from a good checker to a good one. -/
theorem Checker.check_good {c c' : Checker} {program : List (Stmt NodeId)} (hg : c.start.Good)
    (h : c.check program = (.ok (), c')) :
    c'.start.Good ∧ ClassTable.Grows c.classes c'.classes := by
  rw [Checker.check_eq] at h
  split at h
  next st hst =>
    cases h
    obtain ⟨hgood, hgrow⟩ := Typing.checkStmts_good program hg hst
    exact ⟨⟨hgood.classes, hgood.scope.globals, fun b hb => nomatch hb⟩, hgrow⟩
  · cases h

end ClassScript
