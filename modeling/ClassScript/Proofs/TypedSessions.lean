import ClassScript.Proofs.CheckGrowth
import ClassScript.Proofs.Traces
import ClassScript.Proofs.TypedMachines

/-!
# Typed sessions

A session that checks types keeps its machine described by a world through all requests: runs of
programs that fit the plan, runs that fail and are rolled back, refused sources and checks
(`Session.serve_typed`). The plan knows all classes that are ever entered. So as long as no global name
is declared with two types and no class declares a field with two types, operators only meet operands
of the types they were checked for (`Session.operands_fit`); without this they may meet others
(`Session.operands_differ`).
-/

set_option autoImplicit false

namespace ClassScript

open Typing TypeWorld

/-- A global name may get other types, and classes be added, without harm. -/
theorem Checker.restore_good {c c' : Checker} (hg : c.start.Good) (hc : c'.classes.Coherent)
    (hgrow : c.classes.Grows c'.classes) : (c'.restore c.globals).start.Good :=
  ⟨hc, hg.scope.mono hgrow.size⟩

namespace Session

variable {P : Plan} {W : TypeWorld} {s : Session}

/-! ## Classes of a session -/

/-- A source that does not run leaves coherent classes behind. -/
theorem inspect_good (hg : s.checker.start.Good) (typeCheck : Bool) (source : String) :
    (s.inspect typeCheck source).checker.start.Good ∧
      s.checker.classes.Grows (s.inspect typeCheck source).checker.classes := by
  unfold inspect
  split
  · exact ⟨hg, .refl _⟩
  next program _ =>
    dsimp only
    split
    · have hgrow := s.checker.check_grows (Loaded.ofProgram s.machine.nextUse program).program
      exact ⟨Checker.restore_good hg (Checker.check_keepsGood hg _).classes hgrow, hgrow⟩
    · exact ⟨hg, .refl _⟩

theorem checkTypes_good (hg : s.checker.start.Good) {wanted : Bool}
    {program : List (Stmt NodeId)} {c : Checker} (h : s.checkTypes wanted program = .ok c) :
    c.start.Good ∧ s.checker.classes.Grows c.classes := by
  unfold checkTypes at h
  split at h
  · split at h
    next c' hc =>
      cases h
      exact Checker.check_good hg hc
    · cases h
  · cases h
    exact ⟨hg, .refl _⟩

theorem run_good (hg : s.checker.start.Good) (fuel : Nat) (source : String) :
    (s.run fuel source).2.checker.start.Good ∧
      s.checker.classes.Grows (s.run fuel source).2.checker.classes := by
  unfold run runWith
  split
  · exact inspect_good hg s.typeCheck source
  next l c hp =>
    obtain ⟨hc, hgrow⟩ := checkTypes_good hg (load_of_prepare hp).2
    split
    · exact ⟨hc, hgrow⟩
    · exact ⟨Checker.restore_good hg hc.classes hgrow, hgrow⟩

/-- Every request keeps the classes coherent and adds classes only. -/
theorem serve_good (hg : s.checker.start.Good) (r : Request) :
    (s.serve .none r).2.checker.start.Good ∧
      s.checker.classes.Grows (s.serve .none r).2.checker.classes := by
  cases r with
  | check source => exact inspect_good hg true source
  | run clock fuel source => exact @run_good (s.setClock clock) hg fuel source

theorem replay_good (hg : s.checker.start.Good) (requests : List Request) :
    (s.replay .none requests).2.checker.start.Good ∧
      s.checker.classes.Grows (s.replay .none requests).2.checker.classes := by
  induction requests generalizing s with
  | nil => exact ⟨hg, .refl _⟩
  | cons r rest ih =>
    obtain ⟨hnext, hgrow⟩ := serve_good hg r
    obtain ⟨hlast, hgrow'⟩ := ih hnext
    exact ⟨hlast, hgrow.trans hgrow'⟩

/-! ## Requests -/

/-- A world describes the machine, and the global names have their types in it. -/
structure TypedUnder (P : Plan) (W : TypeWorld) (s : Session) : Prop where
  holds : Holds (P.knowing s.machine) W s.machine
  around : Around P W Machine.globalFrame s.checker.start.scope
  super : s.checker.globals.get? "super" = none

theorem TypedUnder.setClock (h : s.TypedUnder P W) (clock : Clock) :
    (s.setClock clock).TypedUnder P W :=
  ⟨h.holds.setClock clock, h.around, h.super⟩

theorem TypedUnder.inspect (h : s.TypedUnder P W) (typeCheck : Bool) (source : String) :
    (s.inspect typeCheck source).TypedUnder P W := by
  unfold Session.inspect
  split
  · exact h
  next program _ =>
    have hm := h.holds.load (Loaded.ofProgram_numbered s.machine.nextUse program)
    dsimp only
    split <;> exact ⟨hm, h.around, h.super⟩

theorem check_of_prepare {source : String} {l : Loaded} {c : Checker}
    (hp : s.prepare true source = .ok (l, c)) : s.checker.check l.program = (.ok (), c) := by
  have htypes := (load_of_prepare hp).2
  unfold checkTypes at htypes
  rw [if_pos rfl] at htypes
  split at htypes
  next c' hc =>
    cases htypes
    exact hc
  · cases htypes

/-- A prepared program that fits the plan is run as its types say. -/
theorem TypedUnder.interpret (h : s.TypedUnder P W) (hg : s.checker.start.Good) {source : String}
    {l : Loaded} {c : Checker} (hp : s.prepare true source = .ok (l, c))
    (hgrow : c.classes.Grows P.classes)
    (hf : ∀ x ∈ s.checker.moments l.program, P.Fits x) (fuel : Nat) :
    ∃ W', Le (some Machine.globalFrame) W W' ∧
      Holds (P.knowing (s.machine.load l)) W' ((s.machine.load l).interpret fuel l.program).2 ∧
      (((s.machine.load l).interpret fuel l.program).1 = .ok () →
        Around P W' Machine.globalFrame c.start.scope ∧ c.globals.get? "super" = none) ∧
      (∀ e, ((s.machine.load l).interpret fuel l.program).1 = .error e → P.Stops e ∧
        ∀ x, e.IsUndefined x →
          ∃ i, Lacks P W' ((s.machine.load l).interpret fuel l.program).2 i x) ∧
      ∀ watch : Watch, (∀ n (e : Event), e.Typed ∧ Served P W' n e → watch e n = .ok () n) →
        (s.machine.load l).interpretWith watch fuel l.program =
          (s.machine.load l).interpret fuel l.program := by
  have hl := load_accepted (load_of_prepare hp).1
  have hc := check_of_prepare hp
  obtain ⟨Γ, htyped, hglobals, hsuper⟩ :=
    Checker.program_typed hl hc hg h.super hgrow hf
  have haround : Around (P.knowing (s.machine.load l)) W Machine.globalFrame
      ⟨s.checker.globals, []⟩ := ⟨h.around.lt, h.around.chain, h.around.globals⟩
  obtain ⟨W', hle, hm, hend, hstops, hwatch⟩ :=
    interpret_typed (h.holds.load hl.numbered) haround htyped fuel
  refine ⟨W', hle, hm, fun hok => ?_, hstops, hwatch⟩
  have ha := hend hok
  rw [hglobals] at ha
  exact ⟨⟨ha.lt, ha.chain, ha.globals⟩, hsuper⟩

/-- A run keeps the session typed, also if it fails and is rolled back. -/
theorem TypedUnder.run (h : s.TypedUnder P W) (hg : s.checker.start.Good)
    (htype : s.typeCheck = true) (hstrict : P.strict = false) {fuel : Nat} {source : String}
    (hgrow : (s.run fuel source).2.checker.classes.Grows P.classes)
    (hf : ∀ l c, s.prepare true source = .ok (l, c) →
      ∀ x ∈ s.checker.moments l.program, P.Fits x) :
    (∃ W', (s.run fuel source).2.TypedUnder P W') ∧
      ∀ failures e, (s.run fuel source).1 = .error failures → .stop e ∈ failures → P.Stops e := by
  unfold Session.run runWith at hgrow ⊢
  rw [htype] at hgrow ⊢
  cases hp : s.prepare true source with
  | error failures =>
    refine ⟨⟨W, h.inspect true source⟩, fun failures' e he hmem => ?_⟩
    cases he
    have hstatic := List.all_eq_true.1 (prepare_static hp) _ hmem
    cases hstatic
  | ok lc =>
    obtain ⟨l, c⟩ := lc
    rw [hp] at hgrow
    dsimp only at hgrow ⊢
    have hclasses : c.classes.Grows P.classes := by
      split at hgrow <;> exact hgrow
    obtain ⟨W', hle, hm, hend, hstops, -⟩ := h.interpret hg hp hclasses (hf l c hp) fuel
    have hinterpret : (s.machine.load l).interpretWith .none fuel l.program =
      (s.machine.load l).interpret fuel l.program := rfl
    rw [hinterpret]
    generalize (s.machine.load l).interpret fuel l.program = result at hm hend hstops ⊢
    obtain ⟨outcome, m⟩ := result
    cases outcome with
    | ok u =>
      obtain ⟨ha, hsuper⟩ := hend rfl
      exact ⟨⟨W', hm.knowing, ha, hsuper⟩, fun failures e he => nomatch he⟩
    | error stop =>
      refine ⟨⟨W', ?_, h.around.mono hle, h.super⟩, fun failures e he hmem => ?_⟩
      · have hloaded := h.holds.load (load_accepted (load_of_prepare hp).1).numbered
        exact (hm.restore hstrict hloaded hle).knowing
      · cases he
        cases List.mem_singleton.1 hmem
        exact (hstops stop rfl).1

/-- What the checks of the programs that requests run meet. -/
def meets (s : Session) : List Request → List Moment
  | [] => []
  | r :: rest =>
    (s.ran? r).toList.flatMap (fun l => s.checker.moments l.program) ++
      (s.serve .none r).2.meets rest

/-- A request keeps the session typed, and what it is answered is as the plan says. -/
theorem serve_typed (h : s.TypedUnder P W) (hg : s.checker.start.Good) (htype : s.typeCheck = true)
    (hstrict : P.strict = false) {r : Request}
    (hgrow : (s.serve .none r).2.checker.classes.Grows P.classes)
    (hf : ∀ l, s.ran? r = some l → ∀ x ∈ s.checker.moments l.program, P.Fits x) :
    (∃ W', (s.serve .none r).2.TypedUnder P W') ∧
      ∀ failures e, (s.serve .none r).1 = .error failures → .stop e ∈ failures → P.Stops e := by
  cases r with
  | check source =>
    refine ⟨⟨W, h.inspect true source⟩, fun failures e he hmem => ?_⟩
    replace he : s.check source = .error failures := he
    unfold check at he
    cases hp : s.prepare true source with
    | ok lc => rw [hp] at he; cases he
    | error failures' =>
      rw [hp] at he
      cases he
      cases List.all_eq_true.1 (prepare_static hp) _ hmem
  | run clock fuel source =>
    refine (h.setClock clock).run hg htype hstrict hgrow fun l c hp => hf l ?_
    simp only [ran?, htype]
    rw [hp]

/-- All that requests are answered is as the plan says, if it fits what the checks meet. -/
theorem replay_typed {requests : List Request} (h : s.TypedUnder P W)
    (hg : s.checker.start.Good) (htype : s.typeCheck = true) (hstrict : P.strict = false)
    (hgrow : (s.replay .none requests).2.checker.classes.Grows P.classes)
    (hf : ∀ x ∈ s.meets requests, P.Fits x) :
    ∀ failures e, .error failures ∈ (s.replay .none requests).1 → .stop e ∈ failures →
      P.Stops e := by
  induction requests generalizing s W with
  | nil => exact fun _ _ h => nomatch h
  | cons r rest ih =>
    obtain ⟨hfirst, hrest⟩ := List.forall_mem_append.1 hf
    obtain ⟨hnext, -⟩ := serve_good hg r
    obtain ⟨-, hlater⟩ := replay_good hnext rest
    obtain ⟨⟨W', hs⟩, hstops⟩ := serve_typed h hg htype hstrict (hlater.trans hgrow)
      fun l hl x hx => hfirst x (by rw [hl]; simpa using hx)
    intro failures e hmem he
    rcases List.mem_cons.1 hmem with hanswer | hmem
    · exact hstops failures e hanswer.symm he
    · exact ih hs hnext ((serve_typeCheck s r).trans htype) hgrow hrest failures e hmem he

theorem new_typed (hclock : P.globals "clock" = some clockType) (typeCheck : Bool) (clock : Clock)
    (sink : Sink) : (Session.new typeCheck clock sink).TypedUnder P initial :=
  ⟨holds_initial hclock clock sink, around_initial hclock, rfl⟩

end Session

/-! ## Names with one type -/

/-- The global name that is bound, with its type. -/
def Moment.globalType? : Moment → Option (String × Ty)
  | .bound name ty scope => if scope.locals.isEmpty then some (name.text, ty) else none
  | _ => none

/-- The types of a field that is entered again in its class, before and after. -/
def Moment.refieldTypes? : Moment → Option (Ty × Ty)
  | .entered id d ty t => (t.ownField? id d.name.text).map fun old => (old, ty)
  | _ => none

/-- The global names that are bound, with their types. -/
def globalTypes (ms : List Moment) : List (String × Ty) :=
  ms.filterMap Moment.globalType?

/-- The types of the fields that are entered again in their class, before and after. -/
def refieldTypes (ms : List Moment) : List (Ty × Ty) :=
  ms.filterMap Moment.refieldTypes?

/-- No name has two types. -/
def OneType (bs : List (String × Ty)) : Prop :=
  bs.Pairwise fun p q => p.1 = q.1 → p.2.same q.2 = true

instance (bs : List (String × Ty)) : Decidable (OneType bs) :=
  inferInstanceAs (Decidable (List.Pairwise _ bs))

/-- The fields that are entered. -/
def enteredFields (ms : List Moment) : List (VarDecl NodeId) :=
  ms.filterMap fun
    | .entered _ d _ _ => some d
    | _ => none

/-- The plan in which global names have the types of a list. -/
def Plan.ofTypes (t : ClassTable) (ht : t.Coherent) (bs : List (String × Ty))
    (strict sealed : Bool) : Plan :=
  ⟨t, ht, fun x => (lookupName x bs).map Ty.erase, fun _ => none, 0, strict, sealed⟩

theorem OneType.lookupName_eq {bs : List (String × Ty)} (h : OneType bs) {x : String} {ty : Ty}
    (hx : (x, ty) ∈ bs) : (lookupName x bs).map Ty.erase = some ty.erase := by
  induction h with
  | nil => cases hx
  | @cons p rest hp _ ih =>
    obtain ⟨y, υ⟩ := p
    rw [ClassScript.lookupName]
    split
    next hy =>
      obtain rfl : y = x := by simpa using hy
      rcases List.mem_cons.1 hx with he | hm
      · cases he
        rfl
      · exact congrArg some ((Ty.same_iff _ _).1 (hp _ hm rfl))
    next hy =>
      rcases List.mem_cons.1 hx with he | hm
      · cases he
        simp at hy
      · exact ih hm

/-- The plan for the types of the global names fits what the checks meet. -/
theorem Plan.ofTypes_fits {t : ClassTable} (ht : t.Coherent) (strict sealed : Bool)
    {bs : List (String × Ty)} {ms : List Moment} (hbs : OneType (bs ++ globalTypes ms))
    (hfields : ∀ p ∈ refieldTypes ms, p.1.same p.2 = true)
    (hown : strict = true → ∀ u, .used u ∈ ms → ¬ u.InOwnInitializer)
    (hplain : sealed = true → ∀ d ∈ enteredFields ms, d.plain = true) :
    ∀ x ∈ ms, (Plan.ofTypes t ht (bs ++ globalTypes ms) strict sealed).Fits x := by
  intro x hx
  cases x with
  | used u => exact fun hs => hown hs u hx
  | bound name ty scope =>
    intro hl
    refine hbs.lookupName_eq (List.mem_append_right _ (List.mem_filterMap.2 ⟨_, hx, ?_⟩))
    simp [Moment.globalType?, hl]
  | entered id d ty t' =>
    refine ⟨fun old hold => ?_, fun hs => hplain hs d (List.mem_filterMap.2 ⟨_, hx, rfl⟩)⟩
    refine (Ty.same_iff _ _).1 (hfields (old, ty) (List.mem_filterMap.2 ⟨_, hx, ?_⟩))
    simp [Moment.refieldTypes?, hold]

namespace Session

/-- In a session that checks types, in which no global name is declared with two types by the programs
that are run and no class declares a field with two types, no run fails because operands do not fit an
operator. -/
theorem operands_fit (clock : Clock) (sink : Sink) (requests : List Request)
    (hnames : OneType (Checker.new.globals.entries ++
      globalTypes ((Session.new true clock sink).meets requests)))
    (hfields : ∀ p ∈ refieldTypes ((Session.new true clock sink).meets requests),
      p.1.same p.2 = true) :
    ∀ failures, .error failures ∈ ((Session.new true clock sink).replay .none requests).1 →
      ∀ fault line, .stop (.fault ⟨.operands fault, line⟩) ∉ failures := by
  intro failures hmem fault line he
  have hlast := (@replay_good (Session.new true clock sink) Checker.new_good requests).1.classes
  have hclock : (Plan.ofTypes _ hlast (Checker.new.globals.entries ++
      globalTypes ((Session.new true clock sink).meets requests)) false false).globals "clock" =
      some clockType := rfl
  have hfits := Plan.ofTypes_fits hlast false false hnames hfields (absurd · Bool.false_ne_true)
    (absurd · Bool.false_ne_true)
  exact replay_typed (new_typed hclock true clock sink) Checker.new_good rfl rfl (.refl _) hfits
    failures _ hmem he

/-- A name is declared again with the same type in a run that fails and with another one in a check, and
then used by a function that was checked before. -/
def redeclaringRequests : List Request :=
  [.run (.error "") 30 "var x = \"a\"; fun f(): string \x7b return x + \"b\"; \x7d",
    .check "var x = true;",
    .run (.error "") 30 "var x = \"c\"; class A \x7b var next: A; \x7d A().next.next;",
    .run (.error "") 30 "print f() + x;"]

theorem operands_fit_redeclared :
    ((Session.new true (.error "") .unlimited).replay .none redeclaringRequests).1 =
        [.ok (), .ok (), .error [.stop (.fault ⟨.notObject, 1⟩)], .ok ()] ∧
      ∀ failures, .error failures ∈
          ((Session.new true (.error "") .unlimited).replay .none redeclaringRequests).1 →
        ∀ fault line, .stop (.fault ⟨.operands fault, line⟩) ∉ failures :=
  ⟨by decide +kernel, operands_fit (.error "") .unlimited redeclaringRequests (by decide +kernel)
    (by decide +kernel)⟩

/-- A function that was checked before the name it reads was declared with another type. -/
def retypedRequests : List Request :=
  [.run (.error "") 30
    "var x = \"a\"; fun f(): string \x7b return x + \"b\"; \x7d var x = true; f();"]

/-- A session that checks types may apply an operator to operands that do not fit it. -/
theorem operands_differ :
    ¬ ∀ (clock : Clock) (sink : Sink) (requests : List Request) (failures : List Failure),
      .error failures ∈ ((Session.new true clock sink).replay .none requests).1 →
        ∀ fault line, .stop (.fault ⟨.operands fault, line⟩) ∉ failures := by
  intro h
  have hanswers : ((Session.new true (.error "") .unlimited).replay .none retypedRequests).1 =
      [.error [.stop (.fault ⟨.operands .addition, 1⟩)]] := by decide +kernel
  refine h (.error "") .unlimited retypedRequests [.stop (.fault ⟨.operands .addition, 1⟩)] ?_
    .addition 1 (List.mem_singleton_self _)
  rw [hanswers]
  exact List.mem_singleton_self _

end Session

end ClassScript
