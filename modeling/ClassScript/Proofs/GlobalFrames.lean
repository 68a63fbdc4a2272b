import ClassScript.Proofs.CheckTrace
import ClassScript.Proofs.GlobalNames

/-!
# Types and values of global names stay in step

The checker binds a name globally for the same statements as a run does: declarations at the top
level (`Typing.checkStmts_names`). A run that fails brings both sets of global names back. So the
names with a type and the names with a value are the same after any requests, a run that succeeds
adds the declared names to both, and one that fails changes neither (`Session.globals_in_step`).
-/

set_option autoImplicit false

namespace ClassScript

/-! ## Names bound by a check -/

namespace Typing

variable {returns : Ty} {u : Unit} {st st' : TypeState}

/-- The global names of a scope. -/
def globalNames (scope : TypeScope) : GlobalNames :=
  fun x => scope.globals.contains x

theorem define_global {scope : TypeScope} (h : scope.locals = []) (x : String) (ty : Ty) :
    (scope.define x ty).locals = [] ∧
      globalNames (scope.define x ty) = (globalNames scope).add [x] := by
  obtain ⟨globals, locals⟩ := scope
  subst h
  refine ⟨rfl, ?_⟩
  funext y
  simp only [globalNames, TypeScope.define, Bindings.contains_insert, GlobalNames.add]
  rw [Bool.or_comm]
  simp [Bool.beq_eq_decide_eq, eq_comm]

/-- A statement that is no declaration leaves the scope as it was. -/
theorem checkStmt_branch : ∀ (s : Stmt NodeId) {st st' : TypeState}, s.Shaped →
    s.isBranch = true → checkStmt returns s st = .ok u st' → st'.scope = st.scope
  | .expression _, _, _, _, _, h => by rw [(checkStmt_expression.1 h).2]
  | .print _, _, _, _, _, h => by rw [(checkStmt_print.1 h).2]
  | .block _, _, _, _, _, h => by
    obtain ⟨inner, -, rfl⟩ := checkStmt_block.1 h
    rfl
  | .ifThen _ thenBranch, _, _, hs, _, h =>
    checkStmt_branch thenBranch hs.2.1 hs.2.2 (checkStmt_ifThen.1 h).2
  | .ifElse _ thenBranch elseBranch, _, _, hs, _, h => by
    obtain ⟨-, mid, ht, he⟩ := checkStmt_ifElse.1 h
    rw [checkStmt_branch elseBranch hs.2.2.1 hs.2.2.2 he,
      checkStmt_branch thenBranch hs.2.1.1 hs.2.1.2 ht]
  | .whileLoop _ body, _, _, hs, _, h =>
    checkStmt_branch body hs.2.1 hs.2.2 (checkStmt_whileLoop.1 h).2
  | .returnWith _ _, _, _, _, _, h => by rw [(checkStmt_returnWith.1 h).2]
termination_by structural s => s

/-- The check of a statement at the top level binds the names that it declares. -/
theorem checkStmt_names {s : Stmt NodeId} (hs : s.Shaped) (hl : st.scope.locals = [])
    (h : checkStmt returns s st = .ok u st') :
    st'.scope.locals = [] ∧ globalNames st'.scope = (globalNames st.scope).add s.declares := by
  by_cases hb : s.isBranch = true
  · rw [checkStmt_branch s hs hb h, Stmt.declares_of_isBranch hb, GlobalNames.add_nil]
    exact ⟨hl, rfl⟩
  · cases s with
    | var decl =>
      obtain ⟨ty, -, rfl⟩ := checkStmt_var.1 h
      exact define_global hl decl.name.text ty
    | function decl =>
      obtain ⟨s, -, hr⟩ := checkStmt_function.1 h
      obtain ⟨inner, -, -, rfl⟩ := checkRoutine_ok.1 hr
      exact define_global hl decl.name.text s.ty
    | classDecl decl =>
      obtain ⟨parent, signatures, entered, filled, hc⟩ := checkStmt_classDecl.1 h
      obtain ⟨last, -, rfl⟩ := hc.routines
      rw [(enterMethods_scope hc.methods).1]
      exact define_global hl decl.name.text (.classObject st.classes.nextId)
    | _ => exact absurd rfl hb

theorem checkStmts_names {program : List (Stmt NodeId)} (hs : Stmt.ShapedAll program)
    (hl : st.scope.locals = []) (h : checkStmts returns program st = .ok u st') :
    globalNames st'.scope = (globalNames st.scope).add (declaredNames program) := by
  induction program generalizing st with
  | nil =>
    rw [← checkStmts_nil.1 h]
    exact (GlobalNames.add_nil _).symm
  | cons s rest ih =>
    obtain ⟨mid, hfirst, hrest⟩ := checkStmts_cons.1 h
    obtain ⟨hmid, hnames⟩ := checkStmt_names hs.1 hl hfirst
    rw [ih hs.2 hmid hrest, hnames]
    exact (GlobalNames.add_append _ s.declares (declaredNames rest)).symm

end Typing

theorem Checker.check_names {c c' : Checker} {program : List (Stmt NodeId)}
    (hs : Stmt.ShapedAll program) (h : c.check program = (.ok (), c')) (x : String) :
    c'.globals.contains x = (c.globals.contains x || (declaredNames program).contains x) := by
  rw [Checker.check_eq] at h
  split at h
  next st hst =>
    cases h
    exact congrFun (Typing.checkStmts_names (u := ()) hs rfl hst) x
  next => cases h

/-! ## Sessions -/

namespace Session

/-- The same names have types and values, if types are checked. -/
structure InStep (s : Session) : Prop where
  frame : Machine.globalFrame < s.machine.frames.nextId
  names : s.typeCheck = true → ∀ x, s.checker.globals.contains x = s.machine.globals.contains x

/-- What a source leaves behind that does not run is not seen in the global names. -/
theorem inspect_globals (s : Session) (typeCheck : Bool) (source : String) :
    (s.inspect typeCheck source).typeCheck = s.typeCheck ∧
      (s.inspect typeCheck source).checker.globals = s.checker.globals ∧
      (s.inspect typeCheck source).machine.frames = s.machine.frames := by
  unfold inspect
  split
  · exact ⟨rfl, rfl, rfl⟩
  · dsimp only
    split <;> exact ⟨rfl, rfl, rfl⟩

theorem InStep.inspect {s : Session} (h : s.InStep) (typeCheck : Bool) (source : String) :
    (s.inspect typeCheck source).InStep := by
  obtain ⟨hcheck, htypes, hframes⟩ := s.inspect_globals typeCheck source
  refine ⟨by rw [hframes]; exact h.frame, fun ht x => ?_⟩
  rw [htypes, Machine.globals, hframes]
  exact h.names (hcheck ▸ ht) x

/-- Numbering a program changes none of the names that it declares. -/
theorem load_names {s : Session} {source : String} {l : Loaded} (h : s.load source = .ok l) :
    ∃ program, parse source = .ok program ∧
      declaredNames l.program = declaredNames program := by
  obtain ⟨program, hp, rfl, -⟩ := load_ok_iff.1 h
  exact ⟨program, hp, declaredNames_numberAll program _⟩

theorem checkTypes_names {s : Session} {program : List (Stmt NodeId)} {c : Checker}
    (hs : Stmt.ShapedAll program) (h : s.checkTypes true program = .ok c) (x : String) :
    c.globals.contains x = (s.checker.globals.contains x || (declaredNames program).contains x) := by
  unfold checkTypes at h
  rw [if_pos rfl] at h
  split at h
  next c' hc =>
    cases h
    exact Checker.check_names hs hc x
  next => cases h

/-- What a run does to the global names. -/
def RunNames (s : Session) (source : String) : Except (List Failure) Unit × Session → Prop
  | (.ok _, s') =>
    ∃ program, parse source = .ok program ∧ ∀ x,
      s'.checker.globals.contains x =
        (s.checker.globals.contains x || (declaredNames program).contains x) ∧
      s'.machine.globals.contains x =
        (s.machine.globals.contains x || (declaredNames program).contains x)
  | (.error _, s') =>
    s'.checker.globals = s.checker.globals ∧ s'.machine.globals = s.machine.globals

theorem run_names {s : Session} (h : s.InStep) (ht : s.typeCheck = true) (fuel : Nat)
    (source : String) : s.RunNames source (s.run fuel source) ∧ (s.run fuel source).2.InStep ∧
      (s.run fuel source).2.typeCheck = true := by
  unfold run runWith
  cases hp : s.prepare s.typeCheck source with
  | error failures =>
    obtain ⟨hcheck, htypes, hframes⟩ := s.inspect_globals s.typeCheck source
    exact ⟨⟨htypes, congrArg (·.vars Machine.globalFrame) hframes⟩, h.inspect s.typeCheck source,
      hcheck.trans ht⟩
  | ok lc =>
    obtain ⟨l, c⟩ := lc
    obtain ⟨hload, htypes⟩ := load_of_prepare hp
    obtain ⟨program, hparse, hnames⟩ := load_names hload
    have hshaped := (load_accepted hload).shaped
    have hc := checkTypes_names hshaped (ht ▸ htypes)
    have hm : (s.machine.load l).GlobalsAre s.machine.globals.contains :=
      ⟨h.frame, fun _ => rfl⟩
    have hrun := Machine.interpret_names hm fuel hshaped
    rw [hnames] at hc hrun
    dsimp only
    rw [show (s.machine.load l).interpretWith .none fuel l.program =
      (s.machine.load l).interpret fuel l.program from rfl]
    generalize (s.machine.load l).interpret fuel l.program = result at hrun ⊢
    obtain ⟨outcome, m⟩ := result
    obtain ⟨hframe, hdeclared⟩ := hrun
    cases outcome with
    | ok u =>
      have hvalues (x : String) : m.globals.contains x =
          (s.machine.globals.contains x || (declaredNames program).contains x) :=
        (hdeclared rfl).names x
      exact ⟨⟨program, hparse, fun x => ⟨hc x, hvalues x⟩⟩,
        ⟨hframe, fun _ x => by rw [hc x, hvalues x, h.names ht x]⟩, ht⟩
    | error e =>
      have hback : (m.restoreGlobals s.machine.globals).globals = s.machine.globals :=
        Frames.vars_update_self _ _ hframe
      have hnames (x : String) : s.checker.globals.contains x =
          (m.restoreGlobals s.machine.globals).globals.contains x := by
        rw [hback]
        exact h.names ht x
      refine ⟨⟨rfl, hback⟩, ⟨?_, fun _ => hnames⟩, ht⟩
      simpa [Machine.restoreGlobals, Frames.restore] using hframe

theorem InStep.setClock {s : Session} (h : s.InStep) (clock : Clock) : (s.setClock clock).InStep :=
  ⟨h.frame, h.names⟩

theorem serve_typeCheck (s : Session) (r : Request) :
    (s.serve .none r).2.typeCheck = s.typeCheck := by
  cases r with
  | check source => exact (s.inspect_globals true source).1
  | run clock fuel source =>
    show ((s.setClock clock).run fuel source).2.typeCheck = _
    unfold Session.run runWith
    split
    · exact ((s.setClock clock).inspect_globals _ source).1
    · split <;> rfl

theorem serve_inStep {s : Session} (h : s.InStep) (ht : s.typeCheck = true) (r : Request) :
    (s.serve .none r).2.InStep ∧ (s.serve .none r).2.typeCheck = true := by
  cases r with
  | check source => exact ⟨h.inspect true source, (s.inspect_globals true source).1.trans ht⟩
  | run clock fuel source => exact (run_names (h.setClock clock) ht fuel source).2

theorem replay_inStep {s : Session} (h : s.InStep) (ht : s.typeCheck = true)
    (requests : List Request) :
    (s.replay .none requests).2.InStep ∧ (s.replay .none requests).2.typeCheck = true := by
  induction requests generalizing s with
  | nil => exact ⟨h, ht⟩
  | cons r rest ih =>
    obtain ⟨hstep, hcheck⟩ := serve_inStep h ht r
    exact ih hstep hcheck

theorem new_inStep (typeCheck : Bool) (clock : Clock) (sink : Sink) :
    (Session.new typeCheck clock sink).InStep := by
  refine ⟨?_, fun _ x => ?_⟩
  · simp [new, Machine.new, Machine.globalFrame, Frames.new, Frames.nextId, Frames.define,
      Frames.update]
  · show (Bindings.single "clock" _).contains x = (Bindings.single "clock" _).contains x
    rw [Bindings.contains_single, Bindings.contains_single]

/-- After any requests to a session that checks types, the same names have types and values. A run
that succeeds adds the names that its program declares to both, and one that fails, in whatever
phase, leaves both as they were. -/
theorem globals_in_step (clock : Clock) (sink : Sink) (requests : List Request) :
    let s := ((Session.new true clock sink).replay .none requests).2
    (∀ x, s.checker.globals.contains x = s.machine.globals.contains x) ∧
      ∀ clock' fuel source, s.RunNames source ((s.setClock clock').run fuel source) := by
  obtain ⟨hstep, hcheck⟩ := replay_inStep (new_inStep true clock sink) rfl requests
  exact ⟨hstep.names hcheck, fun clock' fuel source =>
    (run_names (hstep.setClock clock') hcheck fuel source).1⟩

end Session

end ClassScript
