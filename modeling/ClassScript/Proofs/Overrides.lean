import ClassScript.Proofs.SpelledSources
import ClassScript.Proofs.TypedSessions

/-!
# Overridden members

A member is compared with the one that it hides in the nearest ancestor when it is entered: methods
first, then fields one by one. Whatever has been checked so far, accepted or refused, and whichever
global names were brought back in between, this makes the members of every class agree with those of
all its ancestors (`CheckHistory.members_agree`), also while a session serves requests
(`Session.membersAgree`).
-/

set_option autoImplicit false

namespace ClassScript

/-- What is known of a member of `ancestor` holds of the member that its descendant `id` has. -/
structure ClassTable.MembersAgree (t : ClassTable) (ancestor id : ClassId) : Prop where
  fields : ∀ x ty, t.findField? ancestor x = some ty →
    ∃ ty', t.findField? id x = some ty' ∧ ty.same ty' = true
  methods : ∀ x s, t.findMethod? ancestor x = some s →
    ∃ s', t.findMethod? id x = some s' ∧ Ty.sameAll s.params s'.params = true ∧
      t.accepts s.result s'.result = true
  apart : ∀ x, t.findField? id x = none ∨ t.findMethod? id x = none

/-- In a coherent table a class agrees with all its ancestors. -/
theorem ClassTable.Coherent.membersAgree {t : ClassTable} (h : t.Coherent) {ancestor id : ClassId}
    (hsub : t.isSubclass id ancestor = true) : t.MembersAgree ancestor id := by
  have hmem := isSubclass_iff.1 hsub
  constructor
  case fields =>
    intro x ty hf
    obtain ⟨ty', hf', he⟩ := h.findField?_sub hmem hf
    exact ⟨ty', hf', (Ty.same_iff _ _).2 he.symm⟩
  case methods =>
    intro x s hm
    obtain ⟨s', hm', ho⟩ := h.findMethod?_sub hmem hm
    exact ⟨s', hm', Bool.and_eq_true_iff.1 ho⟩
  case apart =>
    intro x
    cases hf : t.findField? id x with
    | none => exact .inl rfl
    | some ty => exact .inr (h.findMethod?_of_field hf)

/-! ## Histories of a checker -/

/-- What can be asked of a checker: to check a program, to save its global names, and to bring back
those that were saved so many times ago. -/
inductive CheckStep where
  | check (program : List (Stmt NodeId))
  | save
  | restore (index : Nat)

/-- A checker and the global names that were saved, the latest first. -/
structure CheckHistory where
  checker : Checker
  saved : List (Bindings Ty)

namespace CheckHistory

/-- Nothing has been checked or saved. -/
def new : CheckHistory :=
  ⟨.new, []⟩

/-- What is asked is done, also if the program is refused. -/
def step (h : CheckHistory) : CheckStep → CheckHistory
  | .check program => ⟨(h.checker.check program).2, h.saved⟩
  | .save => ⟨h.checker, h.checker.globals :: h.saved⟩
  | .restore index =>
    match h.saved[index]? with
    | some globals => ⟨h.checker.restore globals, h.saved⟩
    | none => h

/-- All that is asked is done in order. -/
def run (h : CheckHistory) (steps : List CheckStep) : CheckHistory :=
  steps.foldl step h

/-- The checker is good, and so it would be with global names that were saved. -/
structure Good (h : CheckHistory) : Prop where
  checker : h.checker.start.Good
  saved : ∀ globals ∈ h.saved, (TypeScope.mk globals []).Known h.checker.classes.nextId

variable {h : CheckHistory}

theorem Good.step (hg : h.Good) (s : CheckStep) : (h.step s).Good := by
  cases s with
  | check program =>
    have hgrow := h.checker.check_grows program
    exact ⟨Checker.check_keepsGood hg.checker program,
      fun globals hs => (hg.saved globals hs).mono hgrow.size⟩
  | save => exact ⟨hg.checker, List.forall_mem_cons.2 ⟨hg.checker.scope, hg.saved⟩⟩
  | restore index =>
    simp only [CheckHistory.step]
    split
    next globals hs =>
      have hknown := hg.saved globals (List.mem_of_getElem? hs)
      exact ⟨⟨hg.checker.classes, hknown⟩, hg.saved⟩
    next => exact hg

theorem Good.run (hg : h.Good) (steps : List CheckStep) : (h.run steps).Good := by
  induction steps generalizing h with
  | nil => exact hg
  | cons s rest ih => exact ih (hg.step s)

theorem new_good : new.Good :=
  ⟨Checker.new_good, fun _ hs => nomatch hs⟩

/-- Whatever a checker was asked, every class that it has built for the programs that it accepted,
or for others before it refused them, agrees with all its ancestors: a field keeps its type, a
method keeps the types of its parameters and gives what the result of the inherited one accepts, and
no name is that of a field and of a method. -/
theorem members_agree (steps : List CheckStep) {ancestor id : ClassId}
    (hsub : (new.run steps).checker.classes.isSubclass id ancestor = true) :
    (new.run steps).checker.classes.MembersAgree ancestor id :=
  (new_good.run steps).checker.classes.membersAgree hsub

/-- The program of a source, empty if the source cannot be read. -/
def programOf (source : String) : List (Stmt NodeId) :=
  (Loaded.ofProgram 0 ((parse source).toOption.getD [])).program

/-- A program that is refused when its second class has been entered. -/
def refusedSource : String :=
  "class A \x7b m(): number \x7b return 1; \x7d \x7d class B < A \x7b m() \x7b \x7d \x7d"

/-- Members that are declared twice, a class in a method of its ancestor, and a method that
overrides an initializer. -/
def nestedSource : String :=
  "class A \x7b var x = 1; var x = 2; A(n: number) \x7b this.x = n; \x7d " ++
    "m(): A \x7b return this; \x7d m(): A \x7b " ++
    "class C < A \x7b var x = 3; A(n: number) \x7b \x7d m(): C \x7b return this; \x7d \x7d " ++
    "return C(); \x7d \x7d class B < A \x7b A(n: number) \x7b \x7d m(): B \x7b return this; \x7d \x7d"

/-- A program is refused and the global names are brought back before another one is checked. -/
def nestedSteps : List CheckStep :=
  [.save, .check (programOf refusedSource), .restore 0, .check (programOf nestedSource)]

theorem members_agree_nested :
    ((new.run (nestedSteps.take 1)).checker.check (programOf refusedSource)).1.isOk = false ∧
      ((new.run (nestedSteps.take 3)).checker.check (programOf nestedSource)).1.isOk = true ∧
      (new.run nestedSteps).checker.classes.isSubclass 3 2 = true ∧
      (new.run nestedSteps).checker.classes.MembersAgree 2 3 := by
  have hrefused := parse_spelled (show refusedSource = _ from rfl)
  have hnested := parse_spelled (show nestedSource = _ from
    append_spelled (append_spelled (append_spelled rfl rfl) rfl) rfl)
  have hsub : (new.run nestedSteps).checker.classes.isSubclass 3 2 = true := by
    rw [nestedSteps, programOf, hrefused, programOf, hnested]
    decide +kernel
  refine ⟨?_, ?_, hsub, members_agree nestedSteps hsub⟩
  · rw [nestedSteps, programOf, hrefused]
    decide +kernel
  · rw [nestedSteps, programOf, hrefused, programOf, hnested]
    decide +kernel

end CheckHistory

/-- Whatever a session was asked, the classes that it has built agree with all their ancestors. -/
theorem Session.membersAgree (typeCheck : Bool) (clock : Clock) (sink : Sink)
    (requests : List Request) {ancestor id : ClassId}
    (hsub : ((Session.new typeCheck clock sink).replay .none requests).2.checker.classes.isSubclass
      id ancestor = true) :
    ((Session.new typeCheck clock sink).replay .none requests).2.checker.classes.MembersAgree
      ancestor id := by
  obtain ⟨hgood, -⟩ :=
    @replay_good (Session.new typeCheck clock sink) Checker.new_good requests
  exact hgood.classes.membersAgree hsub

end ClassScript
