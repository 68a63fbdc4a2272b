import ClassScript.Proofs.GlobalFrames
import ClassScript.Proofs.HeldCode
import ClassScript.Proofs.Overrides

/-!
# Calls that are completed

What a call gives back when it does not fail. If the types of the program have been checked, a
function or a method with a result other than `void` never falls off its end: every call that is
completed gives back the value of a `return` statement (`Session.calls_return`). If the program has
been resolved, no statement outside of functions returns, and no initializer ends with a value that a
`return` statement has computed, so nothing is lost where the way in which they end is ignored
(`Session.returns_placed`).
-/

set_option autoImplicit false

namespace ClassScript

open Run

/-! ## Sessions run what they have accepted -/

namespace Session

theorem ran?_accepted {s : Session} {r : Request} {l : Loaded} (h : s.ran? r = some l) :
    (resolve l.program).errors = [] ∧
      (s.typeCheck = true → (s.checker.check l.program).1 = .ok ()) := by
  cases r with
  | check source => cases h
  | run clock fuel source =>
    unfold ran? at h
    dsimp only at h
    split at h
    next l' c hp =>
      cases h
      obtain ⟨hload, htypes⟩ := load_of_prepare hp
      have haccepted := load_accepted hload
      refine ⟨haccepted.report ▸ haccepted.errors, fun ht => ?_⟩
      unfold checkTypes at htypes
      rw [if_pos ht] at htypes
      split at htypes
      next c' hc => exact congrArg (·.1) hc
      next => cases htypes
    next => cases h

/-- Every program that requests run has been resolved without an error, and its types have been
checked if the session checks types. -/
theorem ran_accepted {s : Session} {requests : List Request} {l : Loaded}
    (h : l ∈ s.ran requests) :
    (resolve l.program).errors = [] ∧
      (s.typeCheck = true → ∃ c : Checker, (c.check l.program).1 = .ok ()) := by
  induction requests generalizing s with
  | nil => cases h
  | cons r rest ih =>
    rcases List.mem_append.1 h with hfirst | hrest
    · obtain ⟨herrors, hcheck⟩ := ran?_accepted (Option.mem_toList.1 hfirst)
      exact ⟨herrors, fun ht => ⟨s.checker, hcheck ht⟩⟩
    · obtain ⟨herrors, hcheck⟩ := ih hrest
      exact ⟨herrors, fun ht => hcheck ((serve_typeCheck s r).trans ht)⟩

/-- What holds of all functions and methods of the programs that run holds of all that the machine
holds and of all that is called. -/
theorem held_of_ran {typeCheck : Bool} {clock : Clock} {sink : Sink} {requests : List Request}
    {P : Callable → Prop}
    (h : ∀ l ∈ (Session.new typeCheck clock sink).ran requests,
      ∀ c ∈ Stmt.callablesAll l.program, P c) :
    (Session.new typeCheck clock sink).EveryEvent requests fun m e => m.Holds P ∧ e.Calls P := by
  have hran (c : Callable) (hc : (Session.new typeCheck clock sink).Ran requests c) : P c := by
    obtain ⟨l, hl, hc⟩ := hc
    exact h l hl c hc
  intro watch hq
  exact held typeCheck clock sink requests watch fun m e he =>
    hq m e ⟨he.1.mono hran, he.2.mono hran⟩

end Session

/-! ## Functions that return a value -/

/-- Statements in the current frame, in a new one, or in any other one: whatever state they run in, if
they do not fail, they end at one of their `return` statements. -/
def Run.EndsReturned (body : List (Stmt NodeId)) : Prop :=
  ∀ (watch : Watch) (fuel : Nat) (m : Machine) (flow : Flow) (n : Machine),
    (execAll (execWith watch fuel) body m = .ok flow n ∨
      execBlock watch (execWith watch fuel) body m = .ok flow n ∨
      ∃ frame, inFrame frame (execAll (execWith watch fuel) body) m = .ok flow n) →
    ∃ v, flow = .returned v ∧ Returned watch (Stmt.returnsAll body) v n

theorem Run.endsReturned {body : List (Stmt NodeId)} (h : Typing.someReturns body = true) :
    EndsReturned body := by
  intro watch fuel m flow n hrun
  have hbody (k : Machine) := execAll_leaves (execWith_leaves watch fuel) body k
  have hblock := execBlock_leaves (execWith_leaves watch fuel) body m
  rw [h] at hbody hblock
  rcases hrun with hr | hr | ⟨frame, hr⟩
  · exact (hr ▸ hbody m).of_ok
  · exact (hr ▸ hblock).of_ok
  · exact (hr ▸ (hbody { m with current := frame }).inFrame).of_ok

/-- Every call that is completed, in whatever state, gives back the value of a `return` statement. -/
def Callable.GivesBack (f : Callable) : Prop :=
  ∀ (watch : Watch) (fuel : Nat) (c : Closure) (args : List Value) (m : Machine) (v : Value)
    (n : Machine), c.callable = f → invoke watch (execWith watch fuel) c args m = .ok v n →
    Returned watch (Stmt.returnsAll f.decl.body) v n

theorem Callable.Checked.givesBack {f : Callable} (h : f.Checked) (hf : f.decl.ReturnsValue) :
    f.GivesBack := by
  rintro watch fuel c args m v n rfl hrun
  obtain ⟨hinit, hbody⟩ := h.returns hf
  exact invoke_returned hinit hbody hrun

/-- Statements one of which returns on every path never fall off their end. So in every program that
passes the check of types, every call of a function or a method with a declared result other than
`void` gives back the value of a `return` statement if it is completed; and whatever is asked of a
session that checks types, this is so of all functions and methods that the machine holds and of all
that are called. -/
theorem Session.calls_return :
    (∀ body : List (Stmt NodeId), Typing.someReturns body = true → EndsReturned body) ∧
      (∀ (c : Checker) (program : List (Stmt NodeId)), (c.check program).1 = .ok () →
        ∀ f ∈ Stmt.callablesAll program, f.decl.ReturnsValue → f.GivesBack) ∧
      ∀ (clock : Clock) (sink : Sink) (requests : List Request),
        (Session.new true clock sink).EveryEvent requests fun m e =>
          m.Holds (fun f => f.decl.ReturnsValue → f.GivesBack) ∧
            e.Calls fun f => f.decl.ReturnsValue → f.GivesBack := by
  refine ⟨fun body => endsReturned, fun c program h f hf => ?_, fun clock sink requests => ?_⟩
  · exact (Checker.callables_checked h f hf).givesBack
  · refine held_of_ran fun l hl f hf => ?_
    obtain ⟨c, hc⟩ := (ran_accepted hl).2 rfl
    exact (Checker.callables_checked hc f hf).givesBack

/-- A program with an initializer, a function in it that returns on every path, and a `return` of the
initializer. -/
def nestedReturns : List (Stmt NodeId) :=
  CheckHistory.programOf ("class A \x7b A(n: number) \x7b " ++
    "fun f(): number \x7b if (n > 9) return 1; else \x7b return n; \x7d \x7d return; \x7d \x7d")

theorem nestedReturns_accepted :
    (Checker.new.check nestedReturns).1 = .ok () ∧ (resolve nestedReturns).errors = [] ∧
      (Stmt.callablesAll nestedReturns).map
          (fun f => (f.decl.name.text, f.isInitializer, f.decl.result.map (·.lexeme))) =
        [("A", true, none), ("f", false, some "number")] := by
  rw [nestedReturns, CheckHistory.programOf, parse_spelled (append_spelled rfl rfl)]
  decide +kernel

theorem Session.calls_return_nested :
    (Checker.new.check nestedReturns).1 = .ok () ∧
      ∀ f ∈ Stmt.callablesAll nestedReturns, f.decl.ReturnsValue → f.GivesBack :=
  ⟨nestedReturns_accepted.1, calls_return.2.1 Checker.new _ nestedReturns_accepted.1⟩

/-! ## Where nothing is returned -/

/-- No statement of the program ever returns, whatever state it runs in; so all statements are run,
and the run goes the same if the first one that returned would end it. -/
structure Run.NeverReturns (program : List (Stmt NodeId)) : Prop where
  statements : ∀ s ∈ program, ∀ (watch : Watch) (fuel : Nat) (m : Machine) (flow : Flow)
    (n : Machine), execWith watch fuel s m = .ok flow n → flow = .normal
  whole : ∀ (watch : Watch) (fuel : Nat),
    Machine.runAll (execWith watch fuel) program =
      (do let _ ← execAll (execWith watch fuel) program)

theorem Run.neverReturns {program : List (Stmt NodeId)} (h : Stmt.returnsAll program = []) :
    NeverReturns program := by
  induction program with
  | nil => exact ⟨List.forall_mem_nil _, fun _ _ => rfl⟩
  | cons s rest ih =>
    obtain ⟨hs, hr⟩ := List.append_eq_nil_iff.1 h
    have hfirst (watch : Watch) (fuel : Nat) (m : Machine) (flow : Flow) (n : Machine)
        (hrun : execWith watch fuel s m = .ok flow n) : flow = .normal := by
      have hleaves := execWith_leaves watch fuel s m
      rw [hrun, hs] at hleaves
      exact hleaves.of_nil
    refine ⟨List.forall_mem_cons.2 ⟨hfirst, (ih hr).statements⟩, fun watch fuel => ?_⟩
    funext m
    rw [Machine.runAll, execAll, bind_apply, bind_apply, bind_apply]
    cases hrun : execWith watch fuel s m with
    | error e n => rfl
    | ok flow n =>
      cases hfirst watch fuel m flow n hrun
      exact (congrFun ((ih hr).whole watch fuel) n).trans (bind_apply _ _ n)

/-- The `return` statements of the body have no values: whatever state it runs in, if it does not
fail, it falls off its end or gives back `nil` without having computed a value. -/
structure Callable.GivesNothing (f : Callable) : Prop where
  bare : ∀ value ∈ Stmt.returnsAll f.decl.body, value = none
  ends : ∀ (watch : Watch) (fuel : Nat) (frame : FrameId) (m : Machine) (flow : Flow) (n : Machine),
    inFrame frame (execAll (execWith watch fuel) f.decl.body) m = .ok flow n →
      flow = .normal ∨ flow = .returned .nil

theorem Callable.givesNothing {f : Callable}
    (h : ∀ value ∈ Stmt.returnsAll f.decl.body, value = none) : f.GivesNothing := by
  refine ⟨h, fun watch fuel frame m flow n hrun => ?_⟩
  have hleaves := body_leaves watch fuel f.decl.body frame m
  rw [hrun] at hleaves
  cases hleaves with
  | normal _ => exact .inl rfl
  | returned hv =>
    obtain ⟨hmem, hvalue, -⟩ := hv
    cases h _ hmem
    cases hvalue
    exact .inr rfl

/-- In every program that is resolved without an error, no statement outside of functions returns, and
every initializer, of whatever class, gives nothing back. So whatever is asked of a session, this is so
of all programs that run, and of all initializers that the machine holds and of all that are called.
-/
theorem Session.returns_placed :
    (∀ program : List (Stmt NodeId), (resolve program).errors = [] → NeverReturns program ∧
        ∀ f ∈ Stmt.callablesAll program, f.isInitializer = true → f.GivesNothing) ∧
      ∀ (typeCheck : Bool) (clock : Clock) (sink : Sink) (requests : List Request),
        (∀ l ∈ (Session.new typeCheck clock sink).ran requests, NeverReturns l.program) ∧
        (Session.new typeCheck clock sink).EveryEvent requests fun m e =>
          m.Holds (fun f => f.isInitializer = true → f.GivesNothing) ∧
            e.Calls fun f => f.isInitializer = true → f.GivesNothing := by
  have hprogram (program : List (Stmt NodeId)) (h : (resolve program).errors = []) :
      NeverReturns program ∧
        ∀ f ∈ Stmt.callablesAll program, f.isInitializer = true → f.GivesNothing := by
    obtain ⟨htop, hinit⟩ := resolve_placed h
    exact ⟨neverReturns htop, fun f hf hi => Callable.givesNothing (hinit f hf hi)⟩
  refine ⟨hprogram, fun typeCheck clock sink requests => ⟨fun l hl => ?_, ?_⟩⟩
  · exact (hprogram l.program (ran_accepted hl).1).1
  · exact held_of_ran fun l hl => (hprogram l.program (ran_accepted hl).1).2

theorem Session.returns_placed_nested :
    (resolve nestedReturns).errors = [] ∧ NeverReturns nestedReturns ∧
      ∀ f ∈ Stmt.callablesAll nestedReturns, f.isInitializer = true → f.GivesNothing :=
  ⟨nestedReturns_accepted.2.1, returns_placed.1 _ nestedReturns_accepted.2.1⟩

end ClassScript
