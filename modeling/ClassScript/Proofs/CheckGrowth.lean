import ClassScript.Proofs.CheckedClasses
import ClassScript.Typing.Checker

/-!
# Checks add classes

Whatever its outcome, a check leaves the classes that were there before as they are
(`Checker.check_grows`): it fills in only the classes that it has entered itself. So far as these are
filled in when an error ends the check, their members fit those of their ancestors
(`Checker.check_keepsGood`).
-/

set_option autoImplicit false

namespace ClassScript

namespace ClassTable.Grows

variable {t u : ClassTable} {id : ClassId}

theorem add (h : Grows t u) (x : String) (parent : Option ClassId) : Grows t (u.add x parent) where
  size := by
    rw [nextId_add]
    exact Nat.le_succ_of_le h.size
  same i hi := by
    rw [classes_add, if_neg (Nat.ne_of_lt (Nat.lt_of_lt_of_le hi h.size))]
    exact h.same i hi

/-- A class that was not there before is changed. -/
theorem modify (h : Grows t u) (hid : t.nextId ≤ id) (f : ClassInfo → ClassInfo) :
    Grows t ⟨u.classes.modify id f⟩ where
  size := by
    simpa [nextId] using h.size
  same i hi := by
    rw [Array.getElem?_modify, if_neg (Nat.ne_of_gt (Nat.lt_of_lt_of_le hi hid))]
    exact h.same i hi

end ClassTable.Grows

namespace Typing

variable {ι α β : Type} {base : ClassTable} {R : α → Prop} {Q : β → Prop} {x : Check α}

/-- The check leaves the classes of `base` as they are, and what it finds has the property `R`. -/
def Keeps (base : ClassTable) (R : α → Prop) (x : Check α) : Prop :=
  ∀ st : TypeState, base.Grows st.classes →
    match x st with
    | .ok a st' => base.Grows st'.classes ∧ R a
    | .error _ st' => base.Grows st'.classes

namespace Keeps

theorem pure {a : α} (h : R a) : Keeps base R (Pure.pure a : Check α) :=
  fun _ hst => ⟨hst, h⟩

theorem bind {f : α → Check β} (hx : Keeps base R x) (hf : ∀ a, R a → Keeps base Q (f a)) :
    Keeps base Q (x >>= f) := by
  intro st hst
  have h := hx st hst
  show match EStateM.bind x f st with
    | .ok a st' => base.Grows st'.classes ∧ Q a
    | .error _ st' => base.Grows st'.classes
  unfold EStateM.bind
  cases hr : x st with
  | ok a st' =>
    rw [hr] at h
    exact hf a h.2 st' h.1
  | error e st' =>
    rw [hr] at h
    exact h

theorem ask (q : ClassTable → TypeScope → Except TypeError α) :
    Keeps base (fun _ => True) (Typing.ask q) := by
  intro st hst
  unfold Typing.ask
  cases q st.classes st.scope with
  | ok a => exact ⟨hst, trivial⟩
  | error e => exact hst

theorem define (name : String) (ty : Ty) : Keeps base (fun _ => True) (Typing.define name ty) :=
  fun _ hst => ⟨hst, trivial⟩

theorem modifyClasses {f : ClassTable → ClassTable} (h : ∀ {u}, base.Grows u → base.Grows (f u)) :
    Keeps base (fun _ => True) (Typing.modifyClasses f) :=
  fun _ hst => ⟨h hst, trivial⟩

theorem inside (enter : TypeScope → TypeScope) (hx : Keeps base R x) :
    Keeps base R (Typing.inside enter x) := by
  intro st hst
  have h := hx ⟨st.classes, enter st.scope⟩ hst
  unfold Typing.inside
  cases hr : x ⟨st.classes, enter st.scope⟩ with
  | ok a st' =>
    rw [hr] at h
    exact h
  | error e st' =>
    rw [hr] at h
    exact h

end Keeps

theorem newClass_keeps (name : Name) (parent : Option ClassId) :
    Keeps base (fun id => base.nextId ≤ id) (newClass name parent) :=
  fun _ hst => ⟨hst.add name.text parent, hst.size⟩

theorem enterMethods_keeps {σ : Type} {id : ClassId} (hid : base.nextId ≤ id) (className : Name)
    (parent : Option ClassId) (ds : List (FunctionDecl σ)) :
    Keeps base (fun _ => True) (enterMethods id className parent ds) := by
  induction ds with
  | nil => exact .pure trivial
  | cons d rest ih =>
    exact (Keeps.ask _).bind fun s _ => (Keeps.modifyClasses fun h => h.modify hid _).bind fun _ _ =>
      ih.bind fun _ _ => .pure trivial

theorem enterFields_keeps {id : ClassId} (hid : base.nextId ≤ id) (ds : List (VarDecl ι)) :
    Keeps base (fun _ => True) (enterFields id ds) := by
  induction ds with
  | nil => exact .pure trivial
  | cons d rest ih =>
    exact (Keeps.ask _).bind fun s _ => (Keeps.modifyClasses fun h => h.modify hid _).bind fun _ _ =>
      ih

mutual

theorem checkStmt_keeps (returns : Ty) : ∀ s : Stmt ι,
    Keeps base (fun _ => True) (checkStmt returns s)
  | .expression _ => (Keeps.ask _).bind fun _ _ => .pure trivial
  | .print _ => (Keeps.ask _).bind fun _ _ => .pure trivial
  | .var _ => (Keeps.ask _).bind fun _ _ => .define _ _
  | .block body => (checkStmts_keeps returns body).inside _
  | .ifThen _ thenBranch => (Keeps.ask _).bind fun _ _ => checkStmt_keeps returns thenBranch
  | .ifElse _ thenBranch elseBranch =>
    (Keeps.ask _).bind fun _ _ => (checkStmt_keeps returns thenBranch).bind fun _ _ =>
      checkStmt_keeps returns elseBranch
  | .whileLoop _ body => (Keeps.ask _).bind fun _ _ => checkStmt_keeps returns body
  | .function decl =>
    (Keeps.ask _).bind fun s _ => (Keeps.define _ _).bind fun _ _ => checkRoutine_keeps s decl
  | .returnWith _ _ => .ask _
  | .classDecl ⟨name, _, fields, methods⟩ =>
    (Keeps.ask _).bind fun parent _ => (newClass_keeps name parent).bind fun _ hid =>
      (enterMethods_keeps hid name parent methods).bind fun signatures _ =>
        ((enterFields_keeps hid fields).bind fun _ _ =>
          checkRoutines_keeps signatures methods).inside _
termination_by structural s => s

theorem checkStmts_keeps (returns : Ty) : ∀ ss : List (Stmt ι),
    Keeps base (fun _ => True) (checkStmts returns ss)
  | [] => .pure trivial
  | s :: rest => (checkStmt_keeps returns s).bind fun _ _ => checkStmts_keeps returns rest
termination_by structural ss => ss

theorem checkRoutine_keeps (s : Signature) : ∀ d : FunctionDecl (Stmt ι),
    Keeps base (fun _ => True) (checkRoutine s d)
  | ⟨_, _, _, body⟩ => ((checkStmts_keeps s.result body).inside _).bind fun _ _ => .ask _
termination_by structural d => d

theorem checkRoutines_keeps (signatures : List Signature) : ∀ ds : List (FunctionDecl (Stmt ι)),
    Keeps base (fun _ => True) (checkRoutines signatures ds)
  | [] => .pure trivial
  | d :: rest =>
    match signatures with
    | [] => .pure trivial
    | s :: others => (checkRoutine_keeps s d).bind fun _ _ => checkRoutines_keeps others rest
termination_by structural ds => ds

end

end Typing

/-- A check leaves the classes that were there before as they are, whatever its outcome. -/
theorem Checker.check_grows {ι : Type} (c : Checker) (program : List (Stmt ι)) :
    c.classes.Grows (c.check program).2.classes := by
  have h := Typing.checkStmts_keeps .void program c.start (.refl c.classes)
  rw [check_eq]
  split at h
  next h' => rw [h']; exact h.1
  next h' => rw [h']; exact h

/-! ## Checks that end with an error -/

namespace Typing

variable {α β : Type} {e : TypeError} {st st' : TypeState}

theorem bind_error {x : Check α} {f : α → Check β} :
    (x >>= f) st = .error e st' ↔
      x st = .error e st' ∨ ∃ a mid, x st = .ok a mid ∧ f a mid = .error e st' := by
  show EStateM.bind x f st = _ ↔ _
  unfold EStateM.bind
  cases h : x st with
  | ok a mid =>
    constructor
    · exact fun hf => .inr ⟨a, mid, rfl, hf⟩
    · rintro (hx | ⟨a', mid', ha, hf⟩)
      · cases hx
      · cases ha
        exact hf
  | error e' mid =>
    constructor
    · intro hf
      cases hf
      exact .inl rfl
    · rintro (hx | ⟨a', mid', ha, -⟩)
      · cases hx
        rfl
      · cases ha

theorem ask_error {question : ClassTable → TypeScope → Except TypeError α} :
    ask question st = .error e st' ↔ question st.classes st.scope = .error e ∧ st = st' := by
  unfold ask
  cases question st.classes st.scope <;> simp

/-- Where an error ends the check of the signatures of methods, others have been entered. -/
theorem enterMethods_error {id : ClassId} {className : Name} {parent : Option ClassId}
    {methods : List (FunctionDecl (Stmt NodeId))}
    (h : enterMethods id className parent methods st = .error e st') :
    ∃ (before : List (FunctionDecl (Stmt NodeId))) (signatures : List Signature),
      enterMethods id className parent before st = .ok signatures st' := by
  induction methods generalizing st with
  | nil => cases h
  | cons d rest ih =>
    rcases bind_error.1 h with herror | ⟨s, _, hask, h⟩
    · obtain ⟨-, rfl⟩ := ask_error.1 herror
      exact ⟨[], [], rfl⟩
    · obtain ⟨hs, rfl⟩ := ask_ok.1 hask
      rcases bind_error.1 h with hm | ⟨_, _, hm, h⟩
      · cases hm
      obtain rfl := modifyClasses_ok.1 hm
      rcases bind_error.1 h with hr | ⟨_, _, -, h⟩
      · obtain ⟨before, signatures, hb⟩ := ih hr
        exact ⟨d :: before, s :: signatures, enterMethods_cons.2 ⟨s, signatures, rfl, hs, hb⟩⟩
      · cases h

/-- Where an error ends the check of fields, others have been entered. -/
theorem enterFields_error {id : ClassId} {fields : List (VarDecl NodeId)}
    (h : enterFields id fields st = .error e st') :
    ∃ before : List (VarDecl NodeId), enterFields id before st = .ok () st' := by
  induction fields generalizing st with
  | nil => cases h
  | cons d rest ih =>
    rcases bind_error.1 h with herror | ⟨ty, _, hask, h⟩
    · obtain ⟨-, rfl⟩ := ask_error.1 herror
      exact ⟨[], rfl⟩
    · obtain ⟨hty, rfl⟩ := ask_ok.1 hask
      rcases bind_error.1 h with hm | ⟨_, _, hm, h⟩
      · cases hm
      obtain rfl := modifyClasses_ok.1 hm
      obtain ⟨before, hb⟩ := ih h
      exact ⟨d :: before, enterFields_cons.2 ⟨ty, hty, hb⟩⟩

/-- If the check ends with an error, the classes are coherent then and the names in force have known
types. No class is ever taken away. -/
def FailsGood (x : Check α) (st : TypeState) : Prop :=
  ∀ e st', x st = .error e st' → st'.Good ∧ st.classes.nextId ≤ st'.classes.nextId

namespace FailsGood

variable {x : Check α}

theorem bind {f : α → Check β} (hx : FailsGood x st)
    (hf : ∀ a mid, x st = .ok a mid →
      st.classes.nextId ≤ mid.classes.nextId ∧ FailsGood (f a) mid) : FailsGood (x >>= f) st := by
  intro e st' h
  rcases bind_error.1 h with h | ⟨a, mid, ha, h⟩
  · exact hx e st' h
  · obtain ⟨hle, hmid⟩ := hf a mid ha
    obtain ⟨hgood, hle'⟩ := hmid e st' h
    exact ⟨hgood, Nat.le_trans hle hle'⟩

theorem pure (a : α) : FailsGood (Pure.pure a : Check α) st :=
  fun _ _ h => nomatch h

theorem ask (hg : st.Good) (q : ClassTable → TypeScope → Except TypeError α) :
    FailsGood (Typing.ask q) st := by
  intro e st' h
  obtain ⟨-, rfl⟩ := ask_error.1 h
  exact ⟨hg, Nat.le_refl _⟩

/-- A question changes nothing, so what follows it is asked in the same state. -/
theorem askThen {q : ClassTable → TypeScope → Except TypeError α} {f : α → Check β} (hg : st.Good)
    (hf : ∀ a, q st.classes st.scope = .ok a → FailsGood (f a) st) :
    FailsGood (Typing.ask q >>= f) st := by
  refine (ask hg q).bind fun a mid h => ?_
  obtain ⟨ha, rfl⟩ := ask_ok.1 h
  exact ⟨Nat.le_refl _, hf a ha⟩

/-- After an error inside, the outer names are in force again. -/
theorem inside {enter : TypeScope → TypeScope} (hs : st.scope.Known st.classes.nextId)
    (h : FailsGood x ⟨st.classes, enter st.scope⟩) : FailsGood (Typing.inside enter x) st := by
  intro e st' he
  unfold Typing.inside at he
  cases hx : x ⟨st.classes, enter st.scope⟩ with
  | ok a mid => rw [hx] at he; cases he
  | error e mid =>
    rw [hx] at he
    cases he
    obtain ⟨hgood, hle⟩ := h e mid hx
    exact ⟨⟨hgood.classes, hs.mono hle⟩, hle⟩

end FailsGood

/-- A class that was entered so far as the error says is one with fewer members. -/
theorem members_failsGood {name : Name} {superclass : Option (SuperclassRef NodeId)}
    {fields : List (VarDecl NodeId)} {methods : List (FunctionDecl (Stmt NodeId))}
    {parent : Option ClassId} (hg : st.Good)
    (hp : superclassOf name superclass st.classes st.scope = .ok parent) :
    FailsGood (enterMethods st.classes.nextId name parent methods)
        ⟨st.classes.add name.text parent,
          st.scope.define name.text (.classObject st.classes.nextId)⟩ ∧
      ∀ signatures entered, enterMethods st.classes.nextId name parent methods
          ⟨st.classes.add name.text parent,
            st.scope.define name.text (.classObject st.classes.nextId)⟩ =
          .ok signatures entered →
        FailsGood (enterFields st.classes.nextId fields)
          ⟨entered.classes, enterClass st.classes.nextId parent entered.scope⟩ := by
  constructor
  · intro e st' h
    obtain ⟨before, signatures, hm⟩ := enterMethods_error h
    have hentered : ClassEntered ⟨name, superclass, [], before⟩ st parent signatures st'
        ⟨st'.classes, enterClass st.classes.nextId parent st'.scope⟩ := ⟨hp, hm, rfl⟩
    exact ⟨hentered.good_outer hg, Nat.le_of_eq hentered.methods_filling.size.symm⟩
  · intro signatures entered hm e st' h
    obtain ⟨before, hf⟩ := enterFields_error h
    have hentered : ClassEntered ⟨name, superclass, before, methods⟩ st parent signatures entered
        st' := ⟨hp, hm, hf⟩
    refine ⟨hentered.good hg, Nat.le_of_eq ?_⟩
    exact hentered.methods_filling.size.trans hentered.filling.size.symm

mutual

/-- A check that ends with an error leaves a good state. -/
theorem checkStmt_failsGood : ∀ (s : Stmt NodeId) {returns : Ty} {st : TypeState}, st.Good →
    FailsGood (checkStmt returns s) st
  | .expression _, _, _, hg => .askThen hg fun _ _ => .pure _
  | .print _, _, _, hg => .askThen hg fun _ _ => .pure _
  | .var _, _, _, hg => .askThen hg fun _ _ _ _ h => nomatch h
  | .block body, _, _, hg =>
    .inside hg.scope (checkStmts_failsGood body (good_enter hg (b := .empty) (by simp)))
  | .ifThen _ thenBranch, _, _, hg => .askThen hg fun _ _ => checkStmt_failsGood thenBranch hg
  | .ifElse _ thenBranch elseBranch, _, _, hg => .askThen hg fun _ _ =>
    (checkStmt_failsGood thenBranch hg).bind fun _ _ ht => by
      obtain ⟨hmid, hgrow⟩ := checkStmt_good thenBranch hg ht
      exact ⟨hgrow.size, checkStmt_failsGood elseBranch hmid⟩
  | .whileLoop _ body, _, _, hg => .askThen hg fun _ _ => checkStmt_failsGood body hg
  | .function decl, _, _, hg => .askThen hg fun s hs => by
    refine FailsGood.bind (fun _ _ h => nomatch h) fun _ _ hd => ?_
    obtain rfl := define_ok.1 hd
    exact ⟨Nat.le_refl _, checkRoutine_failsGood decl (good_define hg (signature_known hs _)) ⟨_, hs⟩⟩
  | .returnWith _ _, _, _, hg => .ask hg _
  | .classDecl ⟨name, superclass, fields, methods⟩, _, st, hg => .askThen hg fun parent hp => by
    obtain ⟨hmethods, hfields⟩ := @members_failsGood _ _ _ fields methods _ hg hp
    refine FailsGood.bind (fun _ _ h => nomatch h) fun id _ hid => ?_
    obtain ⟨rfl, rfl⟩ := newClass_ok.1 hid
    refine ⟨Nat.le_of_lt (by simp), hmethods.bind fun signatures entered hm => ?_⟩
    have hempty : ClassEntered ⟨name, superclass, [], methods⟩ st parent signatures entered
        ⟨entered.classes, enterClass st.classes.nextId parent entered.scope⟩ := ⟨hp, hm, rfl⟩
    refine ⟨Nat.le_of_eq hempty.methods_filling.size.symm, .inside (hempty.good_outer hg).scope ?_⟩
    refine (hfields signatures entered hm).bind fun _ filled hf => ?_
    have hentered : ClassEntered ⟨name, superclass, fields, methods⟩ st parent signatures entered
        filled := ⟨hp, hm, hf⟩
    have hsigned : List.Forall₂ (fun s d => ∃ scope, signature d scope = .ok s) signatures
        methods := (enterMethods_scope hm).2.imp fun _ _ hs => ⟨_, hs⟩
    refine ⟨Nat.le_of_eq ?_, checkRoutines_failsGood methods (hentered.good hg) hsigned⟩
    exact hentered.methods_filling.size.trans hentered.filling.size.symm
termination_by structural s => s

theorem checkStmts_failsGood : ∀ (ss : List (Stmt NodeId)) {returns : Ty} {st : TypeState},
    st.Good → FailsGood (checkStmts returns ss) st
  | [], _, _, _ => .pure _
  | s :: rest, _, _, hg => (checkStmt_failsGood s hg).bind fun _ _ hs => by
    obtain ⟨hmid, hgrow⟩ := checkStmt_good s hg hs
    exact ⟨hgrow.size, checkStmts_failsGood rest hmid⟩
termination_by structural ss => ss

theorem checkRoutine_failsGood : ∀ (d : FunctionDecl (Stmt NodeId)) {s : Signature}
    {st : TypeState}, st.Good → (∃ scope, signature d scope = .ok s) →
    FailsGood (checkRoutine s d) st
  | ⟨_, params, _, body⟩, s, st, hg, ⟨_, hs⟩ => by
    have hin := good_enter hg (paramScope_known (signature_ok.1 hs).2.1)
    refine (FailsGood.inside hg.scope (checkStmts_failsGood body hin)).bind fun _ mid h => ?_
    obtain ⟨inner, hi, rfl⟩ := inside_ok.1 h
    obtain ⟨hgood, hgrow⟩ := checkStmts_good body hin hi
    exact ⟨hgrow.size, .ask (good_inside hg hgood hgrow) _⟩
termination_by structural d => d

theorem checkRoutines_failsGood : ∀ (ds : List (FunctionDecl (Stmt NodeId)))
    {signatures : List Signature} {st : TypeState}, st.Good →
    List.Forall₂ (fun s d => ∃ scope, signature d scope = .ok s) signatures ds →
    FailsGood (checkRoutines signatures ds) st
  | [], _, _, _, .nil => .pure _
  | d :: rest, _, _, hg, .cons hs hall => (checkRoutine_failsGood d hg hs).bind fun _ _ hd => by
    obtain ⟨hmid, hgrow⟩ := checkRoutine_good d hg hs hd
    exact ⟨hgrow.size, checkRoutines_failsGood rest hmid hall⟩
termination_by structural ds => ds

end

end Typing

/-- A check keeps the classes coherent and the global names known, whatever its outcome. -/
theorem Checker.check_keepsGood {c : Checker} (hg : c.start.Good) (program : List (Stmt NodeId)) :
    (c.check program).2.start.Good := by
  rw [check_eq]
  split
  next st h =>
    obtain ⟨hgood, -⟩ := Typing.checkStmts_good program hg h
    exact ⟨hgood.classes, hgood.scope.globals, fun b hb => nomatch hb⟩
  next e st h =>
    obtain ⟨hgood, -⟩ := Typing.checkStmts_failsGood program hg e st h
    exact ⟨hgood.classes, hgood.scope.globals, fun b hb => nomatch hb⟩

end ClassScript
