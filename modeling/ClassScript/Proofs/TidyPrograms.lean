import ClassScript.Proofs.SpelledSources
import ClassScript.Proofs.TypedSessions

/-!
# Tidy programs are sound

A tidy program declares each global name and each field of a class once, and the initial value of a
local variable does not assign to the variable (`Stmt.tidyAll`). These conditions can be read off the
text; they make the check bind each name and enter each field once (`Checker.moments_tidy`). If a
tidy program passes the check in a new session, its run may only fail for a reason that types do not
rule out, and properties are looked for in `nil` and in objects only (`Session.tidy_run_sound`).
-/

set_option autoImplicit false

namespace ClassScript

open Typing TypeWorld ClassTable

/-! ## Tidy programs -/

section

variable {ι : Type}

/-- The initial value of the variable does not assign to the variable. -/
def VarDecl.tidy (d : VarDecl ι) : Bool :=
  (Expr.occurrencesOption d.initializer).all fun o =>
    o.kind != .assign || o.name.text != d.name.text

mutual

/-- In the statement, which stands in an inner scope or at the top level, no local variable is assigned
to in its own initial value, and no class declares a field twice. -/
def Stmt.tidy (inner : Bool) : Stmt ι → Bool
  | .expression _ => true
  | .print _ => true
  | .var decl => !inner || decl.tidy
  | .block body => Stmt.tidyAll true body
  | .ifThen _ thenBranch => thenBranch.tidy inner
  | .ifElse _ thenBranch elseBranch => thenBranch.tidy inner && elseBranch.tidy inner
  | .whileLoop _ body => body.tidy inner
  | .function decl => Stmt.tidyRoutine decl
  | .returnWith _ _ => true
  | .classDecl ⟨_, _, fields, methods⟩ =>
    decide (fields.map fun d => d.name.text).Nodup && Stmt.tidyRoutines methods
termination_by structural s => s

def Stmt.tidyAll (inner : Bool) : List (Stmt ι) → Bool
  | [] => true
  | s :: rest => s.tidy inner && Stmt.tidyAll inner rest
termination_by structural ss => ss

def Stmt.tidyRoutine : FunctionDecl (Stmt ι) → Bool
  | ⟨_, _, _, body⟩ => Stmt.tidyAll true body
termination_by structural d => d

def Stmt.tidyRoutines : List (FunctionDecl (Stmt ι)) → Bool
  | [] => true
  | d :: rest => Stmt.tidyRoutine d && Stmt.tidyRoutines rest
termination_by structural ds => ds

end

end

/-! ## What the check of a tidy program meets -/

/-- Neither is the variable assigned to whose initial value is checked, nor is a field entered again. -/
def Moment.Tidy : Moment → Prop
  | .used u => ¬ u.InOwnInitializer
  | .bound _ _ _ => True
  | .entered id d _ t => t.ownField? id d.name.text = none

/-- What a check meets is tidy, and it binds these global names. -/
structure Tidies (ms : List Moment) (names : List String) : Prop where
  tidy : ∀ x ∈ ms, x.Tidy
  names : (globalTypes ms).map Prod.fst = names

/-- The names that declarations in the innermost scope bind globally. -/
def TypeScope.globally (Γ : TypeScope) (names : List String) : List String :=
  if Γ.locals.isEmpty then names else []

@[simp] theorem globally_nil (Γ : TypeScope) : Γ.globally [] = [] := by
  simp [TypeScope.globally]

theorem globally_append (Γ : TypeScope) (names others : List String) :
    Γ.globally (names ++ others) = Γ.globally names ++ Γ.globally others := by
  unfold TypeScope.globally
  cases Γ.locals.isEmpty <;> rfl

theorem globalTypes_bound (name : Name) (ty : Ty) (scope : TypeScope) (ms : List Moment) :
    globalTypes (.bound name ty scope :: ms) =
      (if scope.locals.isEmpty then [(name.text, ty)] else []) ++ globalTypes ms := by
  rw [globalTypes, List.filterMap_cons, Moment.globalType?]
  cases scope.locals.isEmpty <;> rfl

namespace Tidies

variable {ms ns : List Moment} {names others : List String} {scope : TypeScope}

theorem nil : Tidies [] [] :=
  ⟨fun _ h => (nomatch h), rfl⟩

theorem append (h : Tidies ms names) (k : Tidies ns others) :
    Tidies (ms ++ ns) (names ++ others) := by
  refine ⟨List.forall_mem_append.2 ⟨h.tidy, k.tidy⟩, ?_⟩
  rw [globalTypes, List.filterMap_append, List.map_append]
  exact congrArg₂ (· ++ ·) h.names k.names

/-- What belongs to a statement that declares no name. -/
theorem declaring (h : Tidies ms []) {s : Stmt NodeId} (hs : s.declares = []) :
    Tidies ms (scope.globally s.declares) := by
  rw [hs, globally_nil]
  exact h

/-- What binds no global name may come before. -/
theorem after (h : Tidies ms []) (k : Tidies ns names) : Tidies (ms ++ ns) names :=
  h.append k

theorem uses {init : Option Name} {os : List (Occurrence NodeId)}
    (h : ∀ o ∈ os, ¬ CheckedUse.InOwnInitializer ⟨o, scope, init⟩) :
    Tidies (usesIn scope init os) [] := by
  constructor
  · intro x hx
    obtain ⟨o, ho, rfl⟩ := List.mem_map.1 hx
    exact h o ho
  · rw [globalTypes, usesIn, List.filterMap_map, List.map_eq_nil_iff]
    exact List.filterMap_eq_nil_iff.2 fun _ _ => rfl

theorem uses_none (os : List (Occurrence NodeId)) : Tidies (usesIn scope none os) [] :=
  uses fun _ _ h => nomatch h.2

theorem bound (name : Name) (ty : Ty) (h : Tidies ms []) :
    Tidies (.bound name ty scope :: ms) (scope.globally [name.text]) := by
  refine ⟨List.forall_mem_cons.2 ⟨trivial, h.tidy⟩, ?_⟩
  have hms : globalTypes ms = [] := List.map_eq_nil_iff.1 h.names
  rw [globalTypes_bound, hms, TypeScope.globally]
  cases scope.locals.isEmpty <;> rfl

end Tidies

namespace Typing

variable {returns : Ty} {u : Unit} {st st' : TypeState}

theorem isEmpty_define (Γ : TypeScope) (x : String) (ty : Ty) :
    (Γ.define x ty).locals.isEmpty = Γ.locals.isEmpty := by
  obtain ⟨globals, locals⟩ := Γ
  cases locals <;> rfl

/-- A statement stays in the scope in which it stands. -/
theorem checkStmt_isEmpty {s : Stmt NodeId} (hs : s.Shaped) (h : checkStmt returns s st = .ok u st') :
    st'.scope.locals.isEmpty = st.scope.locals.isEmpty := by
  by_cases hb : s.isBranch = true
  · rw [checkStmt_branch s hs hb h]
  · cases s with
    | var decl =>
      obtain ⟨ty, -, rfl⟩ := checkStmt_var.1 h
      exact isEmpty_define ..
    | function decl =>
      obtain ⟨s, -, hr⟩ := checkStmt_function.1 h
      obtain ⟨inner, -, -, rfl⟩ := checkRoutine_ok.1 hr
      exact isEmpty_define ..
    | classDecl decl =>
      obtain ⟨parent, signatures, entered, filled, hc⟩ := checkStmt_classDecl.1 h
      obtain ⟨last, -, rfl⟩ := hc.routines
      rw [(enterMethods_scope hc.methods).1]
      exact isEmpty_define ..
    | _ => exact absurd rfl hb

theorem initializer_tidies {decl : VarDecl NodeId}
    (h : (!(!st.scope.locals.isEmpty) || decl.tidy) = true) :
    Tidies (usesIn st.scope (initializing st.scope decl.name)
      (Expr.occurrencesOption decl.initializer)) [] := by
  refine Tidies.uses fun o ho hown => ?_
  obtain ⟨hkind, x, hx, hname⟩ := hown
  unfold initializing at hx
  split at hx
  · cases hx
  next hl =>
    cases hx
    rw [hl] at h
    have hall := List.all_eq_true.1 (show decl.tidy = true from h) o ho
    simp_all

/-- The fields of a new class are entered once if their names differ. -/
theorem fields_tidy {id : ClassId} {fields : List (VarDecl NodeId)}
    (hid : id < st.classes.nextId) (hn : (fields.map fun d => d.name.text).Nodup)
    (hnew : ∀ d ∈ fields, st.classes.ownField? id d.name.text = none)
    (h : enterFields id fields st = .ok u st') : Tidies (fieldMoments id fields st) [] := by
  induction fields generalizing st with
  | nil => exact .nil
  | cons d rest ih =>
    obtain ⟨ty, hty, hr⟩ := enterFields_cons.1 h
    obtain ⟨hnot, hn⟩ := List.nodup_cons.1 hn
    obtain ⟨hd, hrest⟩ := List.forall_mem_cons.1 hnew
    have hothers := @ih ⟨st.classes.addField id d.name.text ty, st.scope⟩ (by simpa using hid) hn
      (fun x hx => ?_) hr
    · rw [fieldMoments_cons hty]
      refine (Tidies.uses_none _).after ⟨List.forall_mem_cons.2 ⟨hd, hothers.tidy⟩, hothers.names⟩
    · have hne : d.name.text ≠ x.name.text :=
        fun he => hnot (List.mem_map.2 ⟨x, hx, he.symm⟩)
      show (st.classes.addField id d.name.text ty).ownField? id x.name.text = none
      rw [ownField?_addField, if_neg fun he => hne he.2.2]
      exact hrest x hx

mutual

/-- The check of a tidy statement binds the global names that it declares. -/
theorem stmt_tidies : ∀ (s : Stmt NodeId) {returns : Ty} {st st' : TypeState}, s.Shaped →
    s.tidy (!st.scope.locals.isEmpty) = true → checkStmt returns s st = .ok () st' →
    Tidies (stmtMoments returns s st) (st.scope.globally s.declares)
  | .expression _, _, _, _, _, _, _ => (Tidies.uses_none _).declaring rfl
  | .print _, _, _, _, _, _, _ => (Tidies.uses_none _).declaring rfl
  | .var decl, _, st, _, _, ht, hc => by
    obtain ⟨ty, hty, -⟩ := checkStmt_var.1 hc
    rw [var_moments hty]
    exact (initializer_tidies ht).after (.bound decl.name ty .nil)
  | .block body, _, st, _, hs, ht, hc => by
    obtain ⟨inner, hi, -⟩ := checkStmt_block.1 hc
    have hbody := @stmts_tidies body _ ⟨st.classes, st.scope.enter .empty⟩ _ hs ht hi
    exact hbody.declaring rfl
  | .ifThen condition thenBranch, _, st, _, hs, ht, hc => by
    have hthen := stmt_tidies thenBranch hs.2.1 ht (checkStmt_ifThen.1 hc).2
    rw [Stmt.declares_of_isBranch hs.2.2] at hthen
    exact (Tidies.uses_none _).after hthen
  | .ifElse condition thenBranch elseBranch, _, st, _, hs, ht, hc => by
    obtain ⟨-, mid, hthen, helse⟩ := checkStmt_ifElse.1 hc
    obtain ⟨hfirst, hsecond⟩ := Bool.and_eq_true_iff.1 ht
    have h := stmt_tidies thenBranch hs.2.1.1 hfirst hthen
    rw [← checkStmt_isEmpty hs.2.1.1 hthen] at hsecond
    have h' := stmt_tidies elseBranch hs.2.2.1 hsecond helse
    rw [Stmt.declares_of_isBranch hs.2.1.2, globally_nil] at h
    rw [Stmt.declares_of_isBranch hs.2.2.2, globally_nil] at h'
    rw [ifElse_moments hthen]
    exact (((Tidies.uses_none _).append h).append h').declaring rfl
  | .whileLoop condition body, _, st, _, hs, ht, hc => by
    have hbody := stmt_tidies body hs.2.1 ht (checkStmt_whileLoop.1 hc).2
    rw [Stmt.declares_of_isBranch hs.2.2] at hbody
    exact (Tidies.uses_none _).after hbody
  | .function decl, _, st, _, hs, ht, hc => by
    obtain ⟨s, hsig, hr⟩ := checkStmt_function.1 hc
    rw [function_moments hsig]
    exact .bound decl.name s.ty (routine_tidies decl hs ht hr)
  | .returnWith _ _, _, _, _, _, _, _ => (Tidies.uses_none _).declaring rfl
  | .classDecl ⟨name, superclass, fields, methods⟩, _, st, _, hs, ht, hc => by
    obtain ⟨parent, signatures, entered, filled, hclass⟩ := checkStmt_classDecl.1 hc
    obtain ⟨hfields, hmethods⟩ := Bool.and_eq_true_iff.1 ht
    obtain ⟨last, hr, -⟩ := hclass.routines
    have hentered := hclass.entered
    have hid : st.classes.nextId < entered.classes.nextId := by
      rw [hentered.methods_filling.size, nextId_add]
      exact Nat.lt_succ_self _
    have hnew (d : VarDecl NodeId) (_ : d ∈ fields) :
        entered.classes.ownField? st.classes.nextId d.name.text = none := by
      rw [hentered.enteredField?]
      cases hf : st.classes.ownField? st.classes.nextId d.name.text with
      | none => rfl
      | some ty => exact absurd (ClassTable.ownField?_lt hf) (Nat.lt_irrefl _)
    have hms : Tidies (fieldMoments st.classes.nextId fields
        ⟨entered.classes, enterClass st.classes.nextId parent entered.scope⟩) [] :=
      fields_tidy hid (of_decide_eq_true hfields) hnew hentered.fields
    rw [hclass.moments]
    exact (Tidies.uses_none _).after
      (.bound name _ (hms.after (routines_tidies methods hs.2.2.2 hmethods hr)))
termination_by structural s => s

theorem stmts_tidies : ∀ (ss : List (Stmt NodeId)) {returns : Ty} {st st' : TypeState},
    Stmt.ShapedAll ss → Stmt.tidyAll (!st.scope.locals.isEmpty) ss = true →
    checkStmts returns ss st = .ok () st' →
    Tidies (stmtsMoments returns ss st) (st.scope.globally (declaredNames ss))
  | [], _, _, _, _, _, _ => by
    rw [declaredNames, List.flatMap_nil, globally_nil]
    exact .nil
  | s :: rest, _, st, _, hs, ht, hc => by
    obtain ⟨mid, hfirst, hrest⟩ := checkStmts_cons.1 hc
    obtain ⟨htidy, hothers⟩ := Bool.and_eq_true_iff.1 ht
    have hsame := checkStmt_isEmpty hs.1 hfirst
    have h := stmts_tidies rest hs.2 (hsame.symm ▸ hothers) hrest
    rw [cons_moments hfirst, declaredNames, List.flatMap_cons, globally_append]
    refine (stmt_tidies s hs.1 htidy hfirst).append ?_
    rwa [TypeScope.globally, hsame] at h
termination_by structural ss => ss

theorem routine_tidies : ∀ (d : FunctionDecl (Stmt NodeId)) {s : Signature} {st st' : TypeState},
    Stmt.ShapedRoutine d → Stmt.tidyRoutine d = true → checkRoutine s d st = .ok () st' →
    Tidies (routineMoments s d st) []
  | ⟨_, _, _, body⟩, _, _, _, hs, ht, hc => by
    obtain ⟨inner, hi, -, -⟩ := checkRoutine_ok.1 hc
    exact stmts_tidies body hs.2.2 ht hi
termination_by structural d => d

theorem routines_tidies : ∀ (ds : List (FunctionDecl (Stmt NodeId))) {signatures : List Signature}
    {st st' : TypeState}, Stmt.ShapedRoutines ds → Stmt.tidyRoutines ds = true →
    checkRoutines signatures ds st = .ok () st' → Tidies (routinesMoments signatures ds st) []
  | [], _, _, _, _, _, _ => .nil
  | _ :: _, [], _, _, _, _, _ => .nil
  | d :: rest, _ :: _, _, _, hs, ht, hc => by
    obtain ⟨mid, hfirst, hrest⟩ := checkRoutines_cons.1 hc
    obtain ⟨htidy, hothers⟩ := Bool.and_eq_true_iff.1 ht
    rw [routines_moments hfirst]
    exact (routine_tidies d hs.1 htidy hfirst).after (routines_tidies rest hs.2 hothers hrest)
termination_by structural ds => ds

end

end Typing

/-- The check of a tidy program that declares each global name once, and none of those that are bound
already, meets nothing that is not tidy and gives each global name one type. -/
theorem Checker.moments_tidy {c c' : Checker} {program : List (Stmt NodeId)}
    (hs : Stmt.ShapedAll program) (ht : Stmt.tidyAll false program = true)
    (hc : c.check program = (.ok (), c')) :
    Tidies (c.moments program) (declaredNames program) := by
  rw [check_eq] at hc
  split at hc
  next st hst => exact stmts_tidies program hs ht hst
  · cases hc

/-- Names that are different have one type each. -/
theorem OneType.of_nodup {bs : List (String × Ty)} (h : (bs.map Prod.fst).Nodup) : OneType bs :=
  (List.pairwise_map.1 h).imp fun hne he => absurd he hne

theorem Tidies.refieldTypes_eq {ms : List Moment} {names : List String} (h : Tidies ms names) :
    refieldTypes ms = [] := by
  refine List.filterMap_eq_nil_iff.2 fun x hx => ?_
  have htidy := h.tidy x hx
  cases x with
  | entered id d ty t =>
    rw [Moment.refieldTypes?, show t.ownField? id d.name.text = none from htidy]
    rfl
  | _ => rfl

/-! ## Runs of tidy programs -/

/-- Types do not rule out that a run stops so. -/
def Stop.isExpected : Stop → Bool
  | .fault ⟨.repetitionTooLarge, _⟩ => true
  | .fault ⟨.notObject, _⟩ => true
  | .fault ⟨.fieldOfNoObject, _⟩ => true
  | .fault ⟨.undefinedProperty _, _⟩ => true
  | .fault ⟨.native _, _⟩ => true
  | .fault _ => false
  | .output _ => true
  | .outOfFuel => true

theorem Plan.Stops.isExpected {P : Plan} (hs : P.strict = true) {e : Stop} (h : P.Stops e) :
    e.isExpected = true := by
  cases e with
  | fault e =>
    obtain ⟨cause, line⟩ := e
    cases cause with
    | undefinedVariable name =>
      replace h : P.strict = false := h
      rw [hs] at h
      cases h
    | repetitionTooLarge | notObject | fieldOfNoObject | undefinedProperty | native => rfl
    | _ => exact h.elim
  | output e => rfl
  | outOfFuel => rfl

namespace Session

/-- A program runs alike whether the session checks types or not. -/
theorem prepare_own {s : Session} {source : String} {l : Loaded} {c : Checker}
    (h : s.prepare true source = .ok (l, c)) :
    ∃ c', s.prepare s.typeCheck source = .ok (l, c') := by
  cases htype : s.typeCheck with
  | true => exact ⟨c, h⟩
  | false =>
    obtain ⟨program, hparse, hl, herrors, -⟩ := prepare_ok_iff.1 h
    exact ⟨s.checker, prepare_ok_iff.2 ⟨program, hparse, hl, herrors, rfl⟩⟩

/-- If a tidy source that declares each global name once passes all checks of a new session, its run
stops only for reasons that types do not rule out, and properties are looked for in `nil` and in
objects only: whatever a watch does at other values makes no difference. -/
theorem tidy_run_sound (typeCheck : Bool) (clock : Clock) (sink : Sink) (fuel : Nat)
    {source : String} {l : Loaded} {c : Checker}
    (hp : (Session.new typeCheck clock sink).prepare true source = .ok (l, c))
    (hnames : ("clock" :: declaredNames l.program).Nodup)
    (htidy : Stmt.tidyAll false l.program = true) :
    (∀ failures, ((Session.new typeCheck clock sink).run fuel source).1 = .error failures →
      ∃ e, failures = [.stop e] ∧ e.isExpected = true) ∧
    ∀ watch : Watch, (∀ m (e : Event), e.Typed → watch e m = .ok () m) →
      (Session.new typeCheck clock sink).runWith watch fuel source =
        (Session.new typeCheck clock sink).run fuel source := by
  have hl := load_accepted (load_of_prepare hp).1
  have hc : Checker.new.check l.program = (.ok (), c) := check_of_prepare hp
  have hms := Checker.moments_tidy hl.shaped htidy hc
  have hone : OneType (Checker.new.globals.entries ++
      globalTypes (Checker.new.moments l.program)) := by
    refine .of_nodup ?_
    rw [List.map_append, hms.names]
    exact hnames
  have hcoherent := (Checker.check_good Checker.new_good hc).1.classes
  have hfits := Plan.ofTypes_fits hcoherent true false hone (by simp [hms.refieldTypes_eq])
    (fun _ u hu => hms.tidy _ hu) (absurd · Bool.false_ne_true)
  obtain ⟨W, -, -, -, hstops, hwatch⟩ :=
    (new_typed (P := Plan.ofTypes _ hcoherent _ true false) rfl typeCheck clock sink).interpret
      Checker.new_good hp (.refl _) hfits fuel
  obtain ⟨c', hp'⟩ := prepare_own hp
  unfold run runWith
  rw [hp']
  dsimp only
  refine ⟨fun failures h => ?_, fun watch hq => ?_⟩
  · split at h
    · cases h
    next e m hrun =>
      cases h
      exact ⟨e, rfl, Plan.Stops.isExpected rfl (hstops e (congrArg Prod.fst hrun)).1⟩
  · rw [hwatch watch fun m e he => hq m e he.1]
    rfl

/-- Whether a program is tidy and declares each global name once. -/
def isTidy (l : Loaded) : Bool :=
  decide ("clock" :: declaredNames l.program).Nodup && Stmt.tidyAll false l.program

/-- A tidy source whose run ends with a property of `nil`. -/
def linkedSource : String :=
  "class A \x7b var next: A; m(): A \x7b return this.next; \x7d \x7d " ++
    "class B < A \x7b m(): A \x7b var a = super.m(); return a; \x7d \x7d " ++
    "fun f(a: A): A \x7b return a.m(); \x7d var b = B(); b.next = A(); f(f(b)).m();"

theorem tidy_run_linked :
    ((Session.new true (.error "") .unlimited).run 50 linkedSource).1 =
        .error [.stop (.fault ⟨.notObject, 1⟩)] ∧
      ∃ l c, (Session.new true (.error "") .unlimited).prepare true linkedSource = .ok (l, c) ∧
        (∀ failures, ((Session.new true (.error "") .unlimited).run 50 linkedSource).1 =
            .error failures → ∃ e, failures = [.stop e] ∧ e.isExpected = true) ∧
        ∀ watch : Watch, (∀ m (e : Event), e.Typed → watch e m = .ok () m) →
          (Session.new true (.error "") .unlimited).runWith watch 50 linkedSource =
            (Session.new true (.error "") .unlimited).run 50 linkedSource := by
  have hparse := parse_spelled (show linkedSource = _ from
    append_spelled (append_spelled rfl rfl) rfl)
  refine ⟨by rw [run, runWith, prepare_eq, hparse]; decide +kernel, ?_⟩
  have hd : (Session.new true (.error "") .unlimited).preparesWith linkedSource isTidy = true := by
    rw [preparesWith, prepare_eq, hparse]
    decide +kernel
  obtain ⟨l, c, hp, hd⟩ := preparesWith_iff.1 hd
  obtain ⟨hnames, htidy⟩ := Bool.and_eq_true_iff.1 hd
  exact ⟨l, c, hp, tidy_run_sound true (.error "") .unlimited 50 hp (of_decide_eq_true hnames)
    htidy⟩

end Session

end ClassScript
