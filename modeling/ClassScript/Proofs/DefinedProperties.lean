import ClassScript.Proofs.TidyPrograms

/-!
# Defined properties

If a source passes all checks of a new session, what its run asks for is there (`Event.Found`): the
property of an object is a field that it has or a method, and a method of a superclass is found.
There is one exception (`Event.Awaits`): a field comes into being when its initial value has been
computed, and the initial value of an earlier one may use the object before that
(`Session.properties_missing`). If no initial value of a field uses the object there is none
(`Session.properties_defined`).
-/

set_option autoImplicit false

namespace ClassScript

open Typing TypeWorld

/-- What is asked for is there. -/
def Event.Found (m : Machine) : Event → Prop
  | .access (.object i c) name =>
    (m.field? i name.text).isSome = true ∨ (c.findMethod? name.text).isSome = true
  | .super id keyword method => ∃ v m', Run.superMethod .none id keyword method m = .ok v m'
  | _ => True

/-- The class of the object has a field of this name, but the object has not got it yet. -/
structure Machine.Awaits (m : Machine) (t : ClassTable) (classOf : ObjectId → Option ClassId)
    (i : ObjectId) (x : String) : Prop where
  declared : ∃ d, classOf i = some d ∧ (t.findField? d x).isSome = true
  missing : m.field? i x = none

/-- What is asked for is a field that the object has not got yet. Its class is the one of the table
with the same members. -/
def Event.Awaits (t : ClassTable) (classOf : ObjectId → Option ClassId) (m : Machine) : Event → Prop
  | .access (.object i c) name =>
    (∃ d, classOf i = some d ∧ t.Describes d c) ∧ c.declares name.text = true ∧
      m.Awaits t classOf i name.text
  | _ => False

/-- Under a plan a typed run asks for what is there or is awaited, and under a sealed one for what is
there. -/
theorem TypeWorld.Served.found {P : Plan} {W : TypeWorld} {m : Machine} {e : Event}
    (h : Served P W m e) :
    e.Found m ∨ P.sealed = false ∧ e.Awaits P.classes (W.objects[·]?) m := by
  cases e with
  | access v name =>
    cases v with
    | object i c =>
      obtain ⟨⟨d, hd, hdescribes⟩, hserved⟩ := h
      rcases hserved with hfield | hmethod | ⟨hsealed, hnone, d', ty, hd', hty⟩
      · exact .inl (.inl hfield)
      · exact .inl (.inr hmethod)
      · have hsome : (P.classes.findField? d name.text).isSome = true := by
          rw [hd] at hd'
          cases hd'
          rw [hty]
          rfl
        refine .inr ⟨hsealed, ⟨d, hd, hdescribes⟩, ?_, ⟨d, hd, hsome⟩, hnone⟩
        rw [hdescribes.fields]
        exact hsome
    | _ => exact .inl trivial
  | super id keyword method => exact .inl h
  | _ => exact .inl trivial

namespace Session

section

variable (typeCheck : Bool) (clock : Clock) (sink : Sink) (fuel : Nat) {source : String} {l : Loaded}
  {c : Checker}
  (hp : (Session.new typeCheck clock sink).prepare true source = .ok (l, c))
  (hnames : OneType (Checker.new.globals.entries ++ globalTypes (Checker.new.moments l.program)))
  (hfields : ∀ p ∈ refieldTypes (Checker.new.moments l.program), p.1.same p.2 = true)

include hp hnames hfields

/-- What the run of a source asks for is served under a plan for its check. -/
theorem run_served (sealed : Bool)
    (hplain : sealed = true →
      ∀ d ∈ enteredFields (Checker.new.moments l.program), d.plain = true) :
    ∃ (P : Plan) (W : TypeWorld), P.classes = c.classes ∧ P.sealed = sealed ∧
      (∀ failures, ((Session.new typeCheck clock sink).run fuel source).1 = .error failures →
        ∀ x line, .stop (.fault ⟨.undefinedProperty x, line⟩) ∈ failures →
          ∃ i, Lacks P W ((Session.new typeCheck clock sink).run fuel source).2.machine i x) ∧
      ∀ watch : Watch, (∀ m (e : Event), e.Typed → Served P W m e → watch e m = .ok () m) →
        (Session.new typeCheck clock sink).runWith watch fuel source =
          (Session.new typeCheck clock sink).run fuel source := by
  have hc : Checker.new.check l.program = (.ok (), c) := check_of_prepare hp
  have hcoherent := (Checker.check_good Checker.new_good hc).1.classes
  let P := Plan.ofTypes c.classes hcoherent
    (Checker.new.globals.entries ++ globalTypes (Checker.new.moments l.program)) false sealed
  have hfits : ∀ x ∈ Checker.new.moments l.program, P.Fits x :=
    Plan.ofTypes_fits hcoherent false sealed hnames hfields (absurd · Bool.false_ne_true) hplain
  obtain ⟨W, -, -, -, hstops, hwatch⟩ :=
    (new_typed (P := P) rfl typeCheck clock sink).interpret Checker.new_good hp (.refl _) hfits fuel
  obtain ⟨c', hp'⟩ := prepare_own hp
  refine ⟨P, W, rfl, rfl, ?_⟩
  unfold run runWith
  rw [hp']
  dsimp only
  refine ⟨fun failures h x line hmem => ?_, fun watch hq => ?_⟩
  · cases hrun : ((Session.new typeCheck clock sink).machine.load l).interpretWith .none fuel
        l.program with
    | mk outcome m =>
      rw [hrun] at h
      cases outcome with
      | ok _ => cases h
      | error e =>
        cases h
        have he : Stop.fault ⟨.undefinedProperty x, line⟩ = e := by simpa using hmem
        subst he
        obtain ⟨-, hlacks⟩ := hstops _ (congrArg Prod.fst hrun)
        obtain ⟨i, hsealed, hnone, hd⟩ := hlacks x rfl
        refine ⟨i, hsealed, ?_, hd⟩
        rw [← show _ = m from congrArg Prod.snd hrun]
        exact hnone
  · rw [hwatch watch fun m e he => hq m e he.1 he.2]
    rfl

end

/-- If a source passes all checks of a new session, declares no global name with two types and no
field of a class with two types, then its run asks for properties of `nil` and of objects, which are
there or are fields that the object has not got yet; only for one of these it stops because a
property is not defined. If moreover no initial value of a field mentions `this` or `super`, all
that the run asks for is there, and it does not stop so. -/
theorem properties_defined (typeCheck : Bool) (clock : Clock) (sink : Sink) (fuel : Nat)
    {source : String} {l : Loaded} {c : Checker}
    (hp : (Session.new typeCheck clock sink).prepare true source = .ok (l, c))
    (hnames : OneType (Checker.new.globals.entries ++
      globalTypes (Checker.new.moments l.program)))
    (hfields : ∀ p ∈ refieldTypes (Checker.new.moments l.program), p.1.same p.2 = true) :
    (∃ classOf : ObjectId → Option ClassId,
      (∀ failures, ((Session.new typeCheck clock sink).run fuel source).1 = .error failures →
        ∀ x line, .stop (.fault ⟨.undefinedProperty x, line⟩) ∈ failures →
          ∃ i, ((Session.new typeCheck clock sink).run fuel source).2.machine.Awaits c.classes
            classOf i x) ∧
      ∀ watch : Watch, (∀ m (e : Event), e.Typed → e.Found m ∨ e.Awaits c.classes classOf m →
          watch e m = .ok () m) →
        (Session.new typeCheck clock sink).runWith watch fuel source =
          (Session.new typeCheck clock sink).run fuel source) ∧
    ((∀ d ∈ enteredFields (Checker.new.moments l.program), d.plain = true) →
      (∀ failures, ((Session.new typeCheck clock sink).run fuel source).1 = .error failures →
        ∀ x line, .stop (.fault ⟨.undefinedProperty x, line⟩) ∉ failures) ∧
      ∀ watch : Watch, (∀ m (e : Event), e.Typed → e.Found m → watch e m = .ok () m) →
        (Session.new typeCheck clock sink).runWith watch fuel source =
          (Session.new typeCheck clock sink).run fuel source) := by
  constructor
  · obtain ⟨P, W, hclasses, -, hstops, hwatch⟩ :=
      run_served typeCheck clock sink fuel hp hnames hfields false (absurd · Bool.false_ne_true)
    refine ⟨(W.objects[·]?), fun failures h x line hmem => ?_, fun watch hq => ?_⟩
    · obtain ⟨i, -, hnone, d, ty, hd, hty⟩ := hstops failures h x line hmem
      rw [hclasses] at hty
      exact ⟨i, ⟨d, hd, by rw [hty]; rfl⟩, hnone⟩
    · refine hwatch watch fun m e htyped hserved => hq m e htyped ?_
      rw [← hclasses]
      exact hserved.found.imp_right And.right
  · intro hplain
    obtain ⟨P, W, -, hsealed, hstops, hwatch⟩ :=
      run_served typeCheck clock sink fuel hp hnames hfields true fun _ => hplain
    refine ⟨fun failures h x line hmem => ?_, fun watch hq => ?_⟩
    · obtain ⟨i, hopen, -⟩ := hstops failures h x line hmem
      rw [hsealed] at hopen
      cases hopen
    · refine hwatch watch fun m e htyped hserved => hq m e htyped ?_
      rcases hserved.found with hfound | ⟨hopen, -⟩
      · exact hfound
      · rw [hsealed] at hopen
        cases hopen

/-- Whether a program gives each global name and each field of a class one type, and uses no object in
initial values of its fields. -/
def isSettled (l : Loaded) : Bool :=
  decide (OneType (Checker.new.globals.entries ++ globalTypes (Checker.new.moments l.program))) &&
    (decide (∀ p ∈ refieldTypes (Checker.new.moments l.program), p.1.same p.2 = true) &&
      decide (∀ d ∈ enteredFields (Checker.new.moments l.program), d.plain = true))

/-- A subclass that uses a field and a method of its superclass. -/
def inheritingSource : String :=
  "class A \x7b var n = 1; var next: A; m(): number \x7b return this.n; \x7d \x7d " ++
    "class B < A \x7b var k = 2; m(): number \x7b return super.m() + this.k; \x7d \x7d " ++
    "var b = B(); b.next = A(); b.m() + b.next.m(); b.next.next.m();"

theorem properties_defined_inherited :
    ((Session.new true (.error "") .unlimited).run 50 inheritingSource).1 =
        .error [.stop (.fault ⟨.notObject, 1⟩)] ∧
      ∃ l c, (Session.new true (.error "") .unlimited).prepare true inheritingSource = .ok (l, c) ∧
        (∀ failures, ((Session.new true (.error "") .unlimited).run 50 inheritingSource).1 =
            .error failures →
          ∀ x line, .stop (.fault ⟨.undefinedProperty x, line⟩) ∉ failures) ∧
        ∀ watch : Watch, (∀ m (e : Event), e.Typed → e.Found m → watch e m = .ok () m) →
          (Session.new true (.error "") .unlimited).runWith watch 50 inheritingSource =
            (Session.new true (.error "") .unlimited).run 50 inheritingSource := by
  have hparse := parse_spelled (show inheritingSource = _ from
    append_spelled (append_spelled rfl rfl) rfl)
  refine ⟨by rw [run, runWith, prepare_eq, hparse]; decide +kernel, ?_⟩
  have hd : (Session.new true (.error "") .unlimited).preparesWith inheritingSource isSettled =
      true := by
    rw [preparesWith, prepare_eq, hparse]
    decide +kernel
  obtain ⟨l, c, hp, hd⟩ := preparesWith_iff.1 hd
  obtain ⟨hnames, hd⟩ := Bool.and_eq_true_iff.1 hd
  obtain ⟨hfields, hplain⟩ := Bool.and_eq_true_iff.1 hd
  have hdefined := properties_defined true (.error "") .unlimited 50 hp
    (of_decide_eq_true hnames) (of_decide_eq_true hfields)
  exact ⟨l, c, hp, hdefined.2 (of_decide_eq_true hplain)⟩

/-- The source passes all checks of a new session, and then its run stops because a property is not
defined. -/
def Misses (source name : String) : Prop :=
  ((Session.new true (.error "") .unlimited).prepare true source).isOk = true ∧
    ((Session.new true (.error "") .unlimited).run 50 source).1 =
      .error [.stop (.fault ⟨.undefinedProperty name, 1⟩)]

/-- An initial value that reads a later field through a method. -/
def earlySource : String :=
  "class A \x7b var x = this.m(); var y = 1; m(): number \x7b return this.y; \x7d \x7d A();"

/-- A function that was checked before the name it reads was declared with another type. -/
def retypedObjectSource : String :=
  "class A \x7b m(): number \x7b return 1; \x7d \x7d var a = A(); " ++
    "fun f(): number \x7b return a.m(); \x7d class B \x7b\x7d var a = B(); f();"

/-- A method that is called between the two initial values of a field with two types. -/
def refieldedSource : String :=
  "class P \x7b var p = 1; \x7d class Q \x7b var q = 1; \x7d " ++
    "class A \x7b var x = P(); var y = this.m(); var x = Q(); " ++
    "m(): number \x7b return this.x.q; \x7d \x7d A();"

/-- A property of an accepted source may be missing: while initial values are computed, with a global
name of two types, and with a field of two types. -/
theorem properties_missing :
    Misses earlySource "y" ∧ Misses retypedObjectSource "m" ∧ Misses refieldedSource "q" := by
  have hearly := parse_spelled (show earlySource = _ from rfl)
  have hretyped := parse_spelled (show retypedObjectSource = _ from append_spelled rfl rfl)
  have hrefielded := parse_spelled (show refieldedSource = _ from
    append_spelled (append_spelled rfl rfl) rfl)
  refine ⟨?_, ?_, ?_⟩
  · rw [Misses, prepare_eq, run, runWith, prepare_eq, hearly]
    decide +kernel
  · rw [Misses, prepare_eq, run, runWith, prepare_eq, hretyped]
    decide +kernel
  · rw [Misses, prepare_eq, run, runWith, prepare_eq, hrefielded]
    decide +kernel

end Session

end ClassScript
