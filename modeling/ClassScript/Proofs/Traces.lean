import ClassScript.Proofs.AlikeMachines
import ClassScript.Proofs.CheckGrowth
import ClassScript.Proofs.GlobalFrames
import ClassScript.Proofs.RelabeledChecks

/-!
# What requests leave behind

A check and a run of a source that is refused number uses of names, note distances and enter classes,
but no later request can tell. `Session.log` records what each request is answered and what it prints. A
session that is never asked for checks and refused runs stays alike the one that is
(`Session.Alike`), so it has the same log without them (`static_requests_leave_no_trace`).
-/

set_option autoImplicit false

namespace ClassScript

/-- The failure is not that of a run that has begun. -/
def Failure.isStatic : Failure → Bool
  | .stop _ => false
  | _ => true

/-- A request to a session, its answer, and the bytes that were printed meanwhile. -/
structure Exchange where
  request : Request
  answer : Except (List Failure) Unit
  printed : ByteArray

/-- The request was a run, and its program was run: it was not refused before. -/
def Exchange.lasts (e : Exchange) : Bool :=
  match e.request, e.answer with
  | .check _, _ => false
  | .run .., .ok _ => true
  | .run .., .error failures => !failures.all Failure.isStatic

namespace Session

/-- The exchange about a request, and the session after it. -/
def exchange (s : Session) (r : Request) : Exchange × Session :=
  let (answer, s) := s.serve .none r
  let (printed, s) := s.takeOutput
  (⟨r, answer, printed⟩, s)

/-- The exchanges about requests, one after the other. -/
def log (s : Session) : List Request → List Exchange
  | [] => []
  | r :: rest =>
    let (e, s) := s.exchange r
    e :: s.log rest

/-! ## Before a run -/

/-- What is done to a source before it runs, in order. -/
theorem prepare_eq (s : Session) (typeCheck : Bool) (source : String) :
    s.prepare typeCheck source =
      match parse source with
      | .error failures => .error failures
      | .ok program =>
        let l := Loaded.ofProgram s.machine.nextUse program
        match l.report.errors with
        | [] => (s.checkTypes typeCheck l.program).map fun c => (l, c)
        | errors => .error (errors.map .scope) := by
  unfold prepare load
  cases parse source with
  | error failures => rfl
  | ok program =>
    show ((match (Loaded.ofProgram s.machine.nextUse program).report.errors with
      | [] => Except.ok (Loaded.ofProgram s.machine.nextUse program)
      | errors => Except.error (errors.map Failure.scope)) >>= _) = _
    dsimp only
    split
    · show (s.checkTypes typeCheck _ >>= _) = _
      cases s.checkTypes typeCheck (Loaded.ofProgram s.machine.nextUse program).program <;> rfl
    · rfl

/-- A source is prepared if it spells a program in which all names are in order and, where it is wanted,
all types. -/
theorem prepare_ok_iff {s : Session} {typeCheck : Bool} {source : String} {l : Loaded}
    {c : Checker} : s.prepare typeCheck source = .ok (l, c) ↔ ∃ program,
      parse source = .ok program ∧ l = .ofProgram s.machine.nextUse program ∧
        l.report.errors = [] ∧ s.checkTypes typeCheck l.program = .ok c := by
  rw [prepare_eq]
  constructor
  · intro h
    split at h
    · cases h
    next program hsource =>
      dsimp only at h
      split at h
      next herrors =>
        cases hc : s.checkTypes typeCheck (Loaded.ofProgram s.machine.nextUse program).program with
        | error failures => rw [hc] at h; cases h
        | ok c' =>
          rw [hc] at h
          cases h
          exact ⟨program, hsource, rfl, herrors, hc⟩
      · cases h
  · rintro ⟨program, hsource, rfl, herrors, hc⟩
    rw [hsource]
    dsimp only
    rw [herrors, hc]
    rfl

/-- What a run is answered whose source is prepared, and what is left. -/
theorem run_prepared {s : Session} (clock : Clock) (fuel : Nat) {source : String} {l : Loaded}
    {c : Checker} (hp : s.prepare s.typeCheck source = .ok (l, c)) :
    (s.setClock clock).run fuel source =
      match ((s.machine.load l).setClock clock).interpret fuel l.program with
      | (.ok _, machine) => (.ok (), { s with checker := c, machine })
      | (.error e, machine) => (.error [.stop e],
        { s with
          checker := c.restore s.checker.globals
          machine := machine.restoreGlobals s.machine.globals }) :=
  runWith_prepared (s := s.setClock clock) hp .none fuel

theorem parse_static {source : String} {failures : List Failure}
    (h : parse source = .error failures) : failures.all Failure.isStatic = true := by
  unfold parse at h
  dsimp only at h
  split at h
  · cases h
  · cases h
    simp [Failure.isStatic]
  · cases h
    simp [Failure.isStatic]

theorem checkTypes_static {s : Session} {wanted : Bool} {program : List (Stmt NodeId)}
    {failures : List Failure} (h : s.checkTypes wanted program = .error failures) :
    failures.all Failure.isStatic = true := by
  unfold checkTypes at h
  split at h
  · split at h
    · cases h
    · cases h
      rfl
  · cases h

/-- A source that is refused is refused for a static reason. -/
theorem prepare_static {s : Session} {typeCheck : Bool} {source : String}
    {failures : List Failure} (h : s.prepare typeCheck source = .error failures) :
    failures.all Failure.isStatic = true := by
  rw [prepare_eq] at h
  split at h
  next he =>
    cases h
    exact parse_static he
  next program _ =>
    dsimp only at h
    split at h
    · cases hc : s.checkTypes typeCheck (Loaded.ofProgram s.machine.nextUse program).program with
      | ok c => rw [hc] at h; cases h
      | error es =>
        rw [hc] at h
        cases h
        exact checkTypes_static hc
    · cases h
      simp [Failure.isStatic]

/-! ## Sessions that are alike -/

/-- The sessions differ in what sources have left behind that the second one has looked at without
running them: numbers of uses of names and of classes, and classes that nothing names. -/
structure Alike (s s' : Session) : Prop where
  typeCheck : s'.typeCheck = s.typeCheck
  checker : ∃ K, s.checker.Like K s'.checker
  machine : ∃ base, s.machine.Alike base s'.machine

namespace Alike

variable {s s' : Session}

/-- Only the second session looks at a source. -/
theorem inspectSecond (h : s.Alike s') (typeCheck : Bool) (source : String) :
    s.Alike (s'.inspect typeCheck source) := by
  obtain ⟨base, hm⟩ := h.machine
  obtain ⟨K, hK⟩ := h.checker
  unfold inspect
  split
  · exact h
  next program _ =>
    have hload := hm.loadSecond program
    dsimp only
    split
    · let t := (s'.checker.check (Loaded.ofProgram s'.machine.nextUse program).program).2.classes
      let K' : ClassPairs := { K with next' := t.nextId }
      have hle : K.le K' := fun _ _ hij => hij
      refine ⟨h.typeCheck, ⟨K', ⟨fun i j hij => ?_, hK.classes.next, rfl⟩,
        hK.globals.mono fun _ _ => Ty.Like.mono hle⟩, base, hload⟩
      obtain ⟨c, d, hc, hd, hcd⟩ := hK.classes.classes i j hij
      have hsame := (s'.checker.check_grows
        (Loaded.ofProgram s'.machine.nextUse program).program).same j (hK.classes.lt hij).2
      exact ⟨c, d, hc, hsame.trans hd, hcd.mono hle⟩
    · exact ⟨h.typeCheck, ⟨K, hK⟩, base, hload⟩

/-- Nothing printed so far is left in either session. -/
theorem takeOutput (h : s.Alike s') :
    s'.takeOutput.1 = s.takeOutput.1 ∧ s.takeOutput.2.Alike s'.takeOutput.2 := by
  obtain ⟨base, hm⟩ := h.machine
  refine ⟨?_, h.typeCheck, h.checker, base, hm.below, fun clock ρ hρ => ?_⟩
  · have hsink := (hm.code (.error "") _ (Machine.continues_continuation base _ _)).sink
    have hwritten : s'.machine.sink.written = .empty ++ s.machine.sink.written :=
      congrArg Sink.written hsink
    exact hwritten.trans ByteArray.empty_append
  · have hcode := hm.code clock ρ hρ
    have hsink := hcode.sink
    have hroom : s'.machine.sink.room = s.machine.sink.room := congrArg Sink.room hsink
    have hflush : s'.machine.sink.flushFails = s.machine.sink.flushFails :=
      congrArg Sink.flushFails hsink
    exact { hcode with sink := congrArg₂ (Sink.mk ByteArray.empty) hroom hflush }

/-- Types that the second session accepts are accepted by the first one, under other labels. -/
theorem checkTypes (h : s.Alike s') {ρ : Relabel NodeId NodeId} (hρ : ρ.line = id)
    {typeCheck : Bool} {program : List (Stmt NodeId)} {c' : Checker}
    (hc : s'.checkTypes typeCheck (Stmt.relabelAll ρ program) = .ok c') :
    ∃ c, s.checkTypes typeCheck program = .ok c ∧
      ∃ K, c.Like K c' ∧ (c.restore s.checker.globals).Like K (c'.restore s'.checker.globals) := by
  obtain ⟨K, hK⟩ := h.checker
  obtain ⟨houtcome, K', hle, hK'⟩ := @Checker.check_agrees _ _ ρ (by rw [hρ]; rfl) K _ _ hK program
  have hglobals : Bindings.Forall₂ (Ty.Like K') s.checker.globals s'.checker.globals :=
    hK.globals.mono fun _ _ => Ty.Like.mono hle.le
  unfold Session.checkTypes at hc ⊢
  cases typeCheck with
  | false =>
    cases hc
    exact ⟨_, rfl, K, hK, hK⟩
  | true =>
    rw [if_pos rfl] at hc ⊢
    generalize s'.checker.check (Stmt.relabelAll ρ program) = r' at hc houtcome hK'
    generalize s.checker.check program = r at houtcome hK' ⊢
    obtain ⟨o, c⟩ := r
    obtain ⟨o', d⟩ := r'
    cases o' with
    | error e => cases hc
    | ok u =>
      cases hc
      cases o with
      | error e => cases houtcome
      | ok u => exact ⟨c, rfl, K', hK', hK'.classes, hglobals⟩

/-- A program that the second session accepts is accepted by the first one. -/
theorem prepare (h : s.Alike s') {typeCheck : Bool} {source : String} {l' : Loaded} {c' : Checker}
    (hp : s'.prepare typeCheck source = .ok (l', c')) :
    ∃ program c, l' = .ofProgram s'.machine.nextUse program ∧
      s.prepare typeCheck source = .ok (.ofProgram s.machine.nextUse program, c) ∧
      ∃ K, c.Like K c' ∧
        (c.restore s.checker.globals).Like K (c'.restore s'.checker.globals) := by
  obtain ⟨program, hparse, rfl, herrors, hc⟩ := prepare_ok_iff.1 hp
  obtain ⟨ρ, hρ⟩ := Machine.exists_continues (Machine.continuation (fun i => i)
    s.machine.nextUse s'.machine.nextUse) (Loaded.ofProgram s.machine.nextUse program).next
    (Loaded.ofProgram s'.machine.nextUse program).next
  obtain ⟨⟨hprogram, hreport, -⟩, -⟩ := Machine.ofProgram_continues program hρ
  rw [hprogram] at hc
  rw [hreport] at herrors
  obtain ⟨c, hc, hlike⟩ := h.checkTypes hρ.line hc
  exact ⟨program, c, rfl,
    prepare_ok_iff.2 ⟨program, hparse, rfl, List.map_eq_nil_iff.1 herrors, hc⟩, hlike⟩

/-- A program that is run leaves the sessions alike, with the same answer. -/
theorem runs (h : s.Alike s') (clock : Clock) (fuel : Nat) {source : String} {p : Loaded × Checker}
    (hp : s'.prepare s'.typeCheck source = .ok p) :
    ((s'.setClock clock).run fuel source).1 = ((s.setClock clock).run fuel source).1 ∧
      ((s.setClock clock).run fuel source).2.Alike ((s'.setClock clock).run fuel source).2 := by
  obtain ⟨base, hm⟩ := h.machine
  obtain ⟨l', c'⟩ := p
  obtain ⟨program, c, rfl, hprepare, K, hc, hback⟩ := h.prepare hp
  rw [h.typeCheck] at hprepare
  have hload := hm.load program
  have hl := Loaded.ofProgram_numbered s.machine.nextUse program
  have hl' := Loaded.ofProgram_numbered s'.machine.nextUse program
  have hcontinues {ρ : Relabel NodeId NodeId} (hρ : Machine.Continues
      (Machine.continuation base s.machine.nextUse s'.machine.nextUse)
      (s.machine.load (.ofProgram s.machine.nextUse program)).nextUse
      (s'.machine.load (.ofProgram s'.machine.nextUse program)).nextUse ρ) := by
    rw [Machine.nextUse_load hl, Machine.nextUse_load hl'] at hρ
    exact Machine.ofProgram_continues program hρ
  obtain ⟨houtcome, hafter, hnext, hnext'⟩ := @Machine.Alike.interpret _ _ _ _ _ hload clock
    (fun ρ hρ => (hcontinues hρ).1.1) fuel
  rw [← hnext, ← hnext'] at hcontinues
  have hglobals (ρ) (hρ : Machine.Continues _ _ _ ρ) :
      s'.machine.globals = s.machine.globals.map (Value.relabel ρ) :=
    (hm.code clock ρ (hcontinues hρ).2).globals
  have hrestored := hafter.restoreGlobals hglobals
  rw [run_prepared clock fuel hp, run_prepared clock fuel hprepare]
  generalize ((s.machine.load (.ofProgram s.machine.nextUse program)).setClock clock).interpret fuel
    (Loaded.ofProgram s.machine.nextUse program).program = r at houtcome hafter hrestored ⊢
  generalize ((s'.machine.load (.ofProgram s'.machine.nextUse program)).setClock clock).interpret fuel
    (Loaded.ofProgram s'.machine.nextUse program).program = r' at houtcome hafter hrestored ⊢
  obtain ⟨o, m⟩ := r
  obtain ⟨o', m'⟩ := r'
  cases (show o' = o from houtcome)
  cases o with
  | ok u => exact ⟨rfl, h.typeCheck, ⟨K, hc⟩, _, hafter⟩
  | error e => exact ⟨rfl, h.typeCheck, ⟨K, hback⟩, _, hrestored⟩

end Alike

/-- A source that does not run prints nothing. -/
theorem inspect_sink (s : Session) (typeCheck : Bool) (source : String) :
    (s.inspect typeCheck source).machine.sink = s.machine.sink := by
  unfold inspect
  split
  · rfl
  · dsimp only
    split <;> rfl

theorem takeOutput_eq_self {s : Session} (h : s.machine.sink.written = .empty) :
    s.takeOutput.2 = s := by
  obtain ⟨typeCheck, checker, machine⟩ := s
  obtain ⟨frames, objects, natives, nextIdentity, distances, current, ⟨written, room, flushFails⟩⟩ :=
    machine
  cases h
  rfl

/-- What a run is answered whose source is refused, and what is left. -/
theorem serve_run_refused {s : Session} {clock : Clock} {fuel : Nat} {source : String}
    {failures : List Failure} (hp : s.prepare s.typeCheck source = .error failures) :
    s.serve .none (.run clock fuel source) =
      (.error failures, (s.setClock clock).inspect s.typeCheck source) := by
  unfold serve runWith
  dsimp only
  rw [show (s.setClock clock).prepare (s.setClock clock).typeCheck source =
    s.prepare s.typeCheck source from rfl, hp]
  rfl

/-- A run whose source is not refused does not fail for a static reason. -/
theorem serve_run_lasts {s : Session} {clock : Clock} {fuel : Nat} {source : String}
    {p : Loaded × Checker} (hp : s.prepare s.typeCheck source = .ok p) {failures : List Failure}
    (h : (s.serve .none (.run clock fuel source)).1 = .error failures) :
    failures.all Failure.isStatic = false := by
  unfold serve runWith at h
  dsimp only at h
  rw [show (s.setClock clock).prepare (s.setClock clock).typeCheck source =
    s.prepare s.typeCheck source from rfl, hp] at h
  dsimp only at h
  split at h
  · cases h
  · cases h
    rfl

/-- A request is refused or only a check, and then only what it has left behind differs, or it is
answered alike and leaves the sessions alike. -/
theorem Alike.exchange {s s' : Session} (h : s.Alike s')
    (hempty : s'.machine.sink.written = .empty) (r : Request) :
    (s'.exchange r).1.lasts = false ∧ s.Alike (s'.exchange r).2 ∨
      (s'.exchange r).1.lasts = true ∧ (s.exchange r).1 = (s'.exchange r).1 ∧
        (s.exchange r).2.Alike (s'.exchange r).2 := by
  have hinspected (t : Session) (typeCheck : Bool) (source : String)
      (ht : t.machine.sink = s'.machine.sink) :
      (t.inspect typeCheck source).takeOutput.2 = t.inspect typeCheck source :=
    takeOutput_eq_self (by rw [inspect_sink, ht, hempty])
  cases r with
  | check source =>
    refine .inl ⟨rfl, ?_⟩
    show s.Alike (s'.inspect true source).takeOutput.2
    rw [hinspected s' true source rfl]
    exact h.inspectSecond true source
  | run clock fuel source =>
    cases hp : s'.prepare s'.typeCheck source with
    | error failures =>
      have hserve := @serve_run_refused s' clock fuel source failures hp
      refine .inl ⟨?_, ?_⟩
      · simp [Session.exchange, Exchange.lasts, hserve, prepare_static hp]
      · have hafter : (s'.exchange (.run clock fuel source)).2 =
            (s'.setClock clock).inspect s'.typeCheck source := by
          unfold Session.exchange
          rw [hserve]
          exact hinspected (s'.setClock clock) s'.typeCheck source rfl
        rw [hafter]
        obtain ⟨base, hm⟩ := h.machine
        have hclock : s.Alike (s'.setClock clock) :=
          ⟨h.typeCheck, h.checker, base, hm.setClockSecond clock⟩
        exact hclock.inspectSecond s'.typeCheck source
    | ok p =>
      obtain ⟨hanswer, hafter⟩ := h.runs clock fuel hp
      have hlasts := fun failures => @serve_run_lasts s' clock fuel source p hp failures
      obtain ⟨hprinted, htaken⟩ := hafter.takeOutput
      refine .inr ⟨?_, ?_, htaken⟩
      · unfold Exchange.lasts Session.exchange
        dsimp only
        generalize (s'.serve .none (.run clock fuel source)).1 = answer at hlasts ⊢
        cases answer with
        | ok u => rfl
        | error failures => simp [hlasts failures rfl]
      · exact congrArg₂ (Exchange.mk _) hanswer.symm hprinted.symm

/-- Whatever is asked of the second session, the first one would answer alike what lasts. -/
theorem Alike.log {s s' : Session} (h : s.Alike s') (hempty : s'.machine.sink.written = .empty)
    (requests : List Request) :
    (s'.log requests).filter (·.lasts) =
      s.log (((s'.log requests).filter (·.lasts)).map (·.request)) := by
  induction requests generalizing s s' with
  | nil => rfl
  | cons r rest ih =>
    have htaken : (s'.exchange r).2.machine.sink.written = .empty := rfl
    rw [show s'.log (r :: rest) = (s'.exchange r).1 :: (s'.exchange r).2.log rest from rfl]
    rcases h.exchange hempty r with ⟨hlasts, hnext⟩ | ⟨hlasts, hsame, hnext⟩
    · rw [List.filter_cons_of_neg (by simp [hlasts])]
      exact ih hnext htaken
    · rw [List.filter_cons_of_pos hlasts, List.map_cons,
        show (s'.exchange r).1.request = r from rfl]
      show _ = (s.exchange r).1 :: (s.exchange r).2.log _
      rw [← ih hnext htaken, hsame]

theorem new_alike (typeCheck : Bool) (clock : Clock) (sink : Sink) :
    (new typeCheck clock sink).Alike (new typeCheck clock sink) := by
  let none : ClassPairs := ⟨fun _ _ => False, fun h => h.elim, fun h => h.elim, 0, 0⟩
  refine ⟨rfl, ⟨none, ⟨fun _ _ h => h.elim, rfl, rfl⟩, ?_⟩, fun i => i,
    Machine.new_alike _ clock sink⟩
  exact .single "clock" (.function .nil .number)

/-- A check that fails is a run that would be refused, with the same failures. -/
theorem check_error_iff {s : Session} (h : s.typeCheck = true) (clock : Clock) (fuel : Nat)
    (source : String) (failures : List Failure) :
    s.check source = .error failures ↔
      ((s.setClock clock).run fuel source).1 = .error failures ∧
        failures.all Failure.isStatic = true := by
  unfold check
  cases hp : s.prepare true source with
  | error es =>
    have hrun : ((s.setClock clock).run fuel source).1 = .error es :=
      congrArg Prod.fst (@serve_run_refused s clock fuel source es (h ▸ hp))
    rw [hrun]
    constructor
    · intro he
      cases he
      exact ⟨rfl, prepare_static hp⟩
    · rintro ⟨he, -⟩
      cases he
      rfl
  | ok p =>
    constructor
    · intro he
      cases he
    · rintro ⟨he, hstatic⟩
      have hlasts := @serve_run_lasts s clock fuel source p (h ▸ hp) failures he
      rw [hstatic] at hlasts
      cases hlasts

/-- Checks and refused runs leave no trace: without them, the other requests are answered alike and print
the same. In a session that checks types, a check fails exactly where a run would be refused, and with
the same failures. -/
theorem static_requests_leave_no_trace (typeCheck : Bool) (clock : Clock) (room : Option Nat)
    (flushFails : Bool) (requests : List Request) :
    let s := new typeCheck clock ⟨.empty, room, flushFails⟩
    let t := ((new true clock ⟨.empty, room, flushFails⟩).replay .none requests).2
    (s.log requests).filter (·.lasts) =
        s.log (((s.log requests).filter (·.lasts)).map (·.request)) ∧
      ∀ clock' fuel source failures, t.check source = .error failures ↔
        ((t.setClock clock').run fuel source).1 = .error failures ∧
          failures.all Failure.isStatic = true := by
  refine ⟨(new_alike ..).log rfl requests, fun clock' fuel source failures => ?_⟩
  exact check_error_iff (replay_inStep (new_inStep ..) rfl requests).2 clock' fuel source failures

end Session

end ClassScript
