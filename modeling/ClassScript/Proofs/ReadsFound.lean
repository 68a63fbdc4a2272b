import ClassScript.Proofs.Inspection
import ClassScript.Proofs.ReadRuns
import ClassScript.Proofs.Requests

/-!
# Resolved reads find their names

A session keeps its machine in step with a world through all requests, also through runs that fail
and whose global names are brought back (`Session.serve_known`). So whatever was asked before, a use
of a variable or of `this` with a distance is read in the frame at this distance, which was made for
the scope in which the name was resolved, is not the global one, and binds the name
(`Session.reads_found`).
-/

set_option autoImplicit false

namespace ClassScript

open Resolution

namespace FrameWorld

variable {W : FrameWorld} {m : Machine}

/-! ## Programs -/

/-- The global frame stands in no scope. -/
theorem Describes.global (h : Describes W m) : W.Synced Machine.globalFrame [] :=
  ⟨h.rootLt, [], h.root, .nil⟩

theorem runAll_known {exec : Watch → Run.ExecFn} (hexec : ExecKnown exec)
    {program : List (Stmt NodeId)} (hm : Describes W m) (hc : m.current = Machine.globalFrame)
    (hp : W.StmtsKnown [] program) :
    Safe reading W (fun w => Machine.runAll (exec w) program) m fun _ _ _ => True := by
  induction program generalizing W m with
  | nil => exact Safe.pure hm trivial
  | cons s rest ih =>
    obtain ⟨hfirst, hrest⟩ := hp.cons
    rw [Stmt.scopesAfter_nil] at hrest
    refine (hexec W m [] s hm (hc ▸ hm.global) hfirst).bind ?_
    intro W' flow m' hle hm' hc' _
    exact ih hm' (hc'.trans hc) (hrest.mono hle.le)

/-- The world with more places. -/
def learn (W : FrameWorld) (places : List Place) : FrameWorld :=
  ⟨W.frames, W.opening, W.declared, W.known ++ places⟩

theorem le_learn (W : FrameWorld) (places : List Place) : Le W (W.learn places) :=
  ⟨Nat.le_refl _, fun _ _ => rfl, fun _ _ h => h, fun _ _ h => h, fun _ _ h => h,
    fun _ h => List.mem_append_left _ h⟩

/-- A machine in step stays so when it learns the distances of a program, accepted or not. -/
theorem Describes.note (h : Describes W m) {l : Loaded} (hl : l.Numbered m.nextUse) :
    Describes W (m.load l) :=
  { h with
    places := fun p hp => by
      rw [Machine.distance?_load_of_lt hl (h.numbered p hp), h.places p hp]
    numbered := fun p hp => by
      rw [Machine.nextUse_load hl]
      exact Nat.lt_of_lt_of_le (h.numbered p hp) hl.le }

/-- A machine that has loaded a program is in step, with the places of the program known. -/
theorem Describes.load (h : Describes W m) {l : Loaded} (hl : l.Accepted m.nextUse) :
    Describes (W.learn (programPlaces l.program)) (m.load l) :=
  { h with
    values := fun f x v hv => (h.values f x v hv).mono (W.le_learn _)
    fields := fun i fields x v hi hv => (h.fields i fields x v hi hv).mono (W.le_learn _)
    places := fun p hp => by
      rcases List.mem_append.1 hp with hold | hnew
      · exact (h.note hl.numbered).places p hold
      · exact Machine.distance?_load hl hnew
    numbered := fun p hp => by
      rcases List.mem_append.1 hp with hold | hnew
      · exact (h.note hl.numbered).numbered p hold
      · rw [Machine.nextUse_load hl.numbered]
        exact (hl.place_bounds hnew).2
    proper := List.forall_mem_append.2 ⟨h.proper, hl.proper⟩ }

/-- Known global names may be brought back. -/
theorem Describes.restore (h : Describes W m) {vars : Bindings Value}
    (hv : ∀ x v, vars.get? x = some v → W.Knows v) : Describes W (m.restoreGlobals vars) := by
  have hinner {f : FrameId} (hf : f ≠ Machine.globalFrame) :
      (m.restoreGlobals vars).frames.vars f = m.frames.vars f :=
    Frames.vars_update_of_ne _ _ (Ne.symm hf)
  refine { h with nextId := ?_, chain := ?_, binds := ?_, values := ?_, words := ?_ }
  · simp [Machine.restoreGlobals, Frames.restore, h.nextId]
  · intro f
    simp [Machine.restoreGlobals, Frames.restore, h.chain]
  · intro f x hf hb
    rw [Frames.binds, hinner hf]
    exact h.binds f x hf hb
  · intro f x v hg
    by_cases hf : Machine.globalFrame = f
    · subst hf
      simp only [Machine.restoreGlobals, Frames.restore] at hg
      rw [Frames.vars_update_self _ _ (by rw [h.nextId]; exact h.rootLt)] at hg
      exact hv x v hg
    · rw [hinner (Ne.symm hf)] at hg
      exact h.values f x v hg
  · intro f o ho
    rw [hinner (Nat.ne_of_gt (h.opening f o ho).1)]
    exact h.words f o ho

theorem Describes.setClock (h : Describes W m) (clock : Clock) :
    Describes W (m.setClock clock) := by
  obtain ⟨c, hc⟩ := h.natives
  exact { h with natives := ⟨clock, by simp [Machine.setClock, hc]⟩ }

/-- What is known before the first program. -/
def initial (clock : Clock) (sink : Sink) : FrameWorld :=
  ⟨(Machine.new clock sink).frames, fun _ => none, fun _ => none, []⟩

theorem describes_initial (clock : Clock) (sink : Sink) :
    Describes (initial clock sink) (Machine.new clock sink) := by
  have hempty (f : FrameId) : (Frames.new : Frames Value).vars f = .empty := by
    cases f <;> rfl
  exact
    { nextId := rfl
      chain := fun _ => rfl
      root := rfl
      rootLt := Nat.zero_lt_one
      inside := by
        intro f hf g hg
        obtain rfl : f = 0 := Nat.lt_one_iff.1 hf
        obtain rfl : g = 0 := List.mem_singleton.1 hg
        exact Nat.zero_lt_one
      binds := fun _ _ _ h => h
      values := by
        intro f x v hv
        simp only [Machine.new, Frames.get?_define, hempty] at hv
        split at hv
        · cases hv
          trivial
        · cases hv
      fields := by simp [Machine.new]
      natives := ⟨clock, rfl⟩
      places := by simp [initial]
      numbered := by simp [initial]
      proper := by simp [initial]
      opening := by simp [initial]
      declared := by simp [initial]
      words := by simp [initial] }

end FrameWorld

open FrameWorld

/-! ## Sessions -/

namespace Session

/-- A source that does not run keeps the machine in step. -/
theorem inspect_known {W : FrameWorld} {s : Session} (h : Describes W s.machine) (typeCheck : Bool)
    (source : String) : Describes W (s.inspect typeCheck source).machine := by
  unfold inspect
  split
  · exact h
  next program _ =>
    have hm := h.note (Loaded.ofProgram_numbered s.machine.nextUse program)
    dsimp only
    split <;> exact hm

/-- A request keeps the machine in step, and the places of the program that it runs are known. -/
theorem serve_known {W : FrameWorld} {s : Session} (h : Describes W s.machine) (r : Request) :
    ∃ W', Le W W' ∧
      W'.known = W.known ++ (s.ran? r).toList.flatMap (fun l => programPlaces l.program) ∧
      Describes W' (s.serve .none r).2.machine ∧
      ∀ watch, Quiet reading W' watch → s.serve watch r = s.serve .none r := by
  cases r with
  | check source =>
    exact ⟨W, Le.refl W, by simp [ran?], inspect_known h true source, fun _ _ => rfl⟩
  | run clock fuel source =>
    have hclock : Describes W (s.setClock clock).machine := h.setClock clock
    cases hp : (s.setClock clock).prepare s.typeCheck source with
    | error failures =>
      have hserve (watch : Watch) : s.serve watch (.run clock fuel source) =
          (.error failures, (s.setClock clock).inspect s.typeCheck source) := by
        simp only [serve, runWith]
        rw [show (s.setClock clock).typeCheck = s.typeCheck from rfl, hp]
      refine ⟨W, Le.refl W, by simp [ran?, hp], ?_, fun watch _ => by rw [hserve, hserve]⟩
      rw [hserve]
      exact inspect_known hclock _ source
    | ok lc =>
      obtain ⟨l, c⟩ := lc
      have hl := load_accepted (load_of_prepare hp).1
      have hload := hclock.load hl
      have hprogram : (W.learn (programPlaces l.program)).StmtsKnown [] l.program :=
        ⟨⟨.none, .none, by rw [← hl.errors, hl.report, resolve_eq]; rfl⟩, hl.shaped,
          fun p hp => List.mem_append_right _ hp⟩
      obtain ⟨W', hle, hm, -, -, hw⟩ := (runAll_known (run_known fuel).2
        (hload.current Machine.globalFrame) rfl hprogram).interpret
      have hserve (watch : Watch) : s.serve watch (.run clock fuel source) = _ :=
        runWith_prepared (s := s.setClock clock) hp watch fuel
      have hlater : Le W W' := (W.le_learn _).trans hle.le
      refine ⟨W', hlater, ?_, ?_, fun watch hq => ?_⟩
      · rw [hle.same]
        simp [learn, ran?, hp]
      · have hglobals : ∀ x v, (s.setClock clock).machine.globals.get? x = some v → W'.Knows v :=
          fun x v hv => (hclock.values _ x v hv).mono hlater
        rw [hserve]
        split
        next machine hi =>
          rw [Machine.interpret, hi] at hm
          exact hm
        next e machine hi =>
          rw [Machine.interpret, hi] at hm
          exact hm.restore hglobals
      · rw [hserve, hserve, hw watch hq]
        rfl

theorem replay_known {requests : List Request} {W : FrameWorld} {s : Session}
    (h : Describes W s.machine) :
    ∃ W', Le W W' ∧
      W'.known = W.known ++ (s.ran requests).flatMap (fun l => programPlaces l.program) ∧
      ∀ watch, Quiet reading W' watch → s.replay watch requests = s.replay .none requests := by
  induction requests generalizing W s with
  | nil => exact ⟨W, Le.refl W, by simp [ran], fun _ _ => rfl⟩
  | cons r rest ih =>
    obtain ⟨W', hle, hknown, hm, hw⟩ := serve_known h r
    obtain ⟨W'', hle', hknown', hw'⟩ := ih hm
    refine ⟨W'', hle.trans hle', ?_, fun watch hq => ?_⟩
    · rw [hknown', hknown, ran, List.flatMap_append, List.append_assoc]
    · have hq' : Quiet reading W' watch :=
        fun m e he => hq m e ⟨hle'.fits he.1, hle'.superFits he.2⟩
      simp only [replay, hw watch hq', hw' watch hq]

/-- Whatever is asked of a session, in every run each frame that is made is one for what `opening`
says, and each read of a variable or of `this` with a distance finds a value in the frame at this
distance: a frame other than the global one, made for the scope in which the name was resolved, that
binds the name. -/
theorem reads_found (typeCheck : Bool) (clock : Clock) (sink : Sink) (requests : List Request) :
    ∃ opening : FrameId → Option Opening,
      (Session.new typeCheck clock sink).EveryEvent requests
        (Fits opening (((Session.new typeCheck clock sink).ran requests).flatMap
          fun l => programPlaces l.program)) := by
  have hm : Describes (initial clock sink) (Session.new typeCheck clock sink).machine :=
    describes_initial clock sink
  obtain ⟨W, -, hknown, hw⟩ := replay_known hm
  refine ⟨W.opening, fun watch hq => hw watch fun m e he => hq m e ?_⟩
  have hplaces : W.known = ((Session.new typeCheck clock sink).ran requests).flatMap
      fun l => programPlaces l.program := hknown
  rw [← hplaces]
  exact he.1

end Session

end ClassScript
