import ClassScript.Proofs.ClosedSessions
import ClassScript.Proofs.JoinedPrograms
import ClassScript.Proofs.JoinedSources

/-!
# Two runs in one

Two sources that run one after the other run just so as one source, the second one below the first one:
with the same output, the same global names and types, and the same machine but for the lines on which
its code stands (`Session.run_joined`). The second program is checked before the first one runs, and the
distances of its uses of names are known all along; the first program does not see them
(`Machine.Closed.runAll_ahead`). Its lines are other ones, but no run looks at lines
(`Machine.runAll_onLines`).
-/

set_option autoImplicit false

namespace ClassScript

namespace Machine

theorem eq_of_setting {a b : Machine} (hsetting : a.setting = b.setting) (hframes : a.frames = b.frames)
    (hobjects : a.objects = b.objects) (hidentity : a.nextIdentity = b.nextIdentity)
    (hsink : a.sink = b.sink) : a = b := by
  obtain ⟨frames, objects, natives, nextIdentity, distances, current, sink⟩ := a
  cases hframes
  cases hobjects
  cases hidentity
  cases hsink
  cases congrArg Setting.natives hsetting
  cases congrArg Setting.distances hsetting
  cases congrArg Setting.current hsetting
  rfl

/-! ## The first program -/

/-- A run of a program leaves a closed machine. -/
theorem Closed.runAll {m : Machine} (h : m.Closed) (clock : Clock) (program : List (Stmt Unit))
    {fuel : Nat} {n : Machine} :
    let l := Loaded.ofProgram m.nextUse program
    let m₁ := (m.load l).setClock clock
    runAll (Run.execWith .none fuel) l.program { m₁ with current := globalFrame } = .ok () n →
      n.Closed := by
  intro l m₁ hn
  have hrun : (m₁.interpret fuel l.program).2 = n := by
    unfold Machine.interpret interpretWith
    rw [hn]
    exact finish_machine _ n
  exact hrun ▸ (h.interpret clock program fuel).1

/-- A program runs alike if more distances are known, and with more fuel. -/
theorem Closed.runAll_ahead {m : Machine} (h : m.Closed) (clock : Clock)
    (program rest : List (Stmt Unit)) {fuel fuel' : Nat} (hle : fuel ≤ fuel') {n : Machine} :
    let l := Loaded.ofProgram m.nextUse program
    let m₁ := (m.load l).setClock clock
    let m₂ := ((m.load l).load (.ofProgram l.next rest)).setClock clock
    Machine.runAll (Run.execWith .none fuel) l.program { m₁ with current := globalFrame } = .ok () n →
      Machine.runAll (Run.execWith .none fuel') l.program { m₂ with current := globalFrame } =
          .ok () { n with distances := m₂.distances } ∧
        n.setting = { m₁ with current := globalFrame }.setting := by
  intro l m₁ m₂ hn
  have hload : (m.load l).nextUse = l.next := nextUse_load (Loaded.ofProgram_numbered ..)
  have hnumbered : (Loaded.ofProgram l.next rest).Numbered (m.load l).nextUse := by
    rw [hload]
    exact Loaded.ofProgram_numbered ..
  have halike : Alike (fun i => i) (m.load l) ((m.load l).load (.ofProgram l.next rest)) := by
    rw [← hload]
    exact Alike.loadSecond (h.load program) rest
  have hlater : (m.load l).nextUse ≤ ((m.load l).load (.ofProgram l.next rest)).nextUse := by
    rw [nextUse_load hnumbered]
    exact hnumbered.le
  obtain ⟨ρ, hρ⟩ := exists_continues (fun i => i) (m.load l).nextUse
    ((m.load l).load (.ofProgram l.next rest)).nextUse
  obtain ⟨n', hn', hend, hsetting, hsetting'⟩ := runAll_ok_follows (by rw [hρ.line])
    (.inr ⟨trivial, hle⟩) ((halike.code clock ρ hρ).withCurrent globalFrame) hn
  rw [← Closed.program_relabel m program hρ] at hn'
  -- The code of `n` has no uses of names that `ρ` changes.
  have hsame : Relabels ρ .empty (n.setClock clock) (n.setClock clock) := by
    refine (h.runAll clock program hn).code clock ρ (hρ.earlier ?_ ?_ (Nat.le_refl _))
    · exact Nat.le_of_eq (congrArg (fun s => s.distances.size) hsetting)
    · exact Nat.le_trans (Nat.le_of_eq (congrArg (fun s => s.distances.size) hsetting)) hlater
  refine ⟨hn'.trans (congrArg (EStateM.Result.ok ()) ?_), hsetting⟩
  have hsink : n'.sink = n.sink := by rw [hend.sink, ByteArray.empty_append]
  refine eq_of_setting (hsetting'.trans ?_) (hend.frames.trans hsame.frames.symm)
    (hend.objects.trans hsame.objects.symm) hend.nextIdentity hsink
  exact congrArg (fun s => Setting.mk s.natives m₂.distances s.current) hsetting.symm

/-! ## The second program -/

/-- All lines are forgotten. -/
def noLines : Relabel NodeId NodeId :=
  ⟨fun _ => 0, fun i => i⟩

/-- The machine without the lines on which its code stands. -/
def withoutLines (m : Machine) : Machine :=
  { m with
    frames := m.frames.map (Value.relabel noLines)
    objects := m.objects.map (Bindings.map (Value.relabel noLines)) }

/-- The machine with what has been printed before. -/
def printedAfter (pre : ByteArray) (m : Machine) : Machine :=
  { m with sink := ⟨pre ++ m.sink.written, m.sink.room, m.sink.flushFails⟩ }

/-- After a first program that has run in one go with the second one, the machine is that in which the second
one runs on its own, but for what has been printed. -/
theorem ran_eq_printedAfter {m n : Machine} {clock : Clock} (l r : Loaded)
    (h : n.setting = { (m.load l).setClock clock with current := globalFrame }.setting) :
    { n with distances := (((m.load l).load r).setClock clock).distances } =
      printedAfter n.sink.written
        { (n.takeOutput.2.load r).setClock clock with current := globalFrame } := by
  have hnatives : n.natives = ((m.load l).setClock clock).natives := congrArg Setting.natives h
  have hclock : n.natives = n.natives.modify 0 fun _ => .clock clock := by
    have hagain := congrArg Machine.natives (setClock_setClock (m.load l) clock clock)
    rw [hnatives]
    exact hagain.symm
  have hdistances : ((m.load l).load r).distances = (n.takeOutput.2.load r).distances :=
    distances_load (congrArg Setting.distances h).symm r
  have hsetting : Setting.mk n.natives ((m.load l).load r).distances n.current =
      ⟨n.natives.modify 0 fun _ => .clock clock, (n.takeOutput.2.load r).distances, globalFrame⟩ := by
    rw [← hclock, hdistances, show n.current = globalFrame from congrArg Setting.current h]
  refine eq_of_setting hsetting rfl rfl rfl ?_
  exact congrArg (Sink.mk · n.sink.room n.sink.flushFails) ByteArray.append_empty.symm

theorem withoutLines_relabels {m : Machine} {c : Clock} (h : m.natives = #[.clock c])
    (pre : ByteArray) : Relabels noLines pre m (m.printedAfter pre).withoutLines :=
  ⟨rfl, rfl, ⟨c, h, h⟩, rfl, rfl, rfl, fun _ => rfl⟩

/-- A program that stands on other lines runs alike, with more fuel and after other output. -/
theorem runAll_onLines {m n : Machine} {c : Clock} (h : m.natives = #[.clock c]) (f : Nat → Nat)
    (pre : ByteArray) {fuel fuel' : Nat} (hle : fuel ≤ fuel') {program : List (Stmt NodeId)}
    (hn : runAll (Run.execWith .none fuel) program m = .ok () n) :
    ∃ n', runAll (Run.execWith .none fuel') (Stmt.relabelAll ⟨f, id⟩ program) (m.printedAfter pre) =
        .ok () n' ∧
      n'.withoutLines = (n.printedAfter pre).withoutLines := by
  obtain ⟨e, he, hend, hsetting, -⟩ := runAll_ok_follows rfl (.inr ⟨trivial, hle⟩)
    (withoutLines_relabels h pre) hn
  have herased : Stmt.relabelAll noLines program =
      Stmt.relabelAll noLines (Stmt.relabelAll ⟨f, id⟩ program) :=
    (Stmt.relabelAll_relabelAll ⟨f, id⟩ noLines program).symm
  have hstart : Relabels noLines .empty (m.printedAfter pre) (m.printedAfter pre).withoutLines :=
    ⟨rfl, rfl, ⟨c, h, h⟩, rfl, rfl, by
      show Sink.mk _ _ _ = Sink.mk (.empty ++ _) _ _
      rw [ByteArray.empty_append]
      rfl, fun _ => rfl⟩
  rw [herased] at he
  obtain ⟨n', hn', hend', hsetting'⟩ := runAll_ok_of_follows rfl hstart he
  have hwritten : ByteArray.empty ++ n'.sink.written = n'.sink.written := ByteArray.empty_append
  have hsink : n'.sink = (n.printedAfter pre).sink := by
    have hboth := hend'.sink.symm.trans hend.sink
    rwa [hwritten] at hboth
  exact ⟨n', hn', eq_of_setting (hsetting'.trans hsetting.symm) (hend'.frames.symm.trans hend.frames)
    (hend'.objects.symm.trans hend.objects) (hend'.nextIdentity.symm.trans hend.nextIdentity) hsink⟩

end Machine

/-! ## Sessions -/

namespace Session

/-- The session after requests whose output has been taken. -/
def after (s : Session) (requests : List Request) : Session :=
  requests.foldl (fun s r => (s.exchange r).2) s

theorem Closed.after {s : Session} (h : s.Closed) (requests : List Request) :
    (s.after requests).Closed := by
  induction requests generalizing s with
  | nil => exact h
  | cons r rest ih => exact ih (h.exchange r)

/-- The run of a source ends well: the program that it spells is accepted, leads to the checker `c` and to
the machine `m`, and the output is flushed. -/
structure RunsTo (s : Session) (clock : Clock) (fuel : Nat) (source : String)
    (program : List (Stmt Unit)) (c : Checker) (m : Machine) : Prop where
  parsed : parse source = .ok program
  resolved : (Loaded.ofProgram s.machine.nextUse program).report.errors = []
  checked : s.checkTypes s.typeCheck (Loaded.ofProgram s.machine.nextUse program).program = .ok c
  ran :
    let l := Loaded.ofProgram s.machine.nextUse program
    Machine.runAll (Run.execWith .none fuel) l.program
      { (s.machine.load l).setClock clock with current := Machine.globalFrame } = .ok () m
  flushed : m.sink.flush = .ok ()

variable {s : Session} {clock : Clock} {fuel : Nat} {source : String} {program : List (Stmt Unit)}
  {c : Checker} {m : Machine}

/-- What is left of a run that ends well. -/
def ranTo (s : Session) (c : Checker) (m : Machine) : Session :=
  { s with checker := c, machine := m.takeOutput.2 }

theorem RunsTo.shaped (h : s.RunsTo clock fuel source program c m) :
    Stmt.ShapedAll (Loaded.ofProgram s.machine.nextUse program).program := by
  have hprepared := prepare_ok_iff.2 ⟨program, h.parsed, rfl, h.resolved, h.checked⟩
  exact (load_accepted (load_of_prepare hprepared).1).shaped

theorem RunsTo.exchange (h : s.RunsTo clock fuel source program c m) :
    s.exchange (.run clock fuel source) =
      (⟨.run clock fuel source, .ok (), m.sink.written⟩, s.ranTo c m) := by
  have hprepared := prepare_ok_iff.2 ⟨program, h.parsed, rfl, h.resolved, h.checked⟩
  have hran := h.ran
  have hserve : s.serve .none (.run clock fuel source) =
      (.ok (), { s with checker := c, machine := m }) := by
    refine (run_prepared clock fuel hprepared).trans ?_
    unfold Machine.interpret Machine.interpretWith Machine.finish
    dsimp only at hran ⊢
    rw [hran]
    dsimp only
    rw [h.flushed]
  unfold Session.exchange
  rw [hserve]
  rfl

theorem exists_runsTo (h : (s.exchange (.run clock fuel source)).1.answer = .ok ()) :
    ∃ program c m, s.RunsTo clock fuel source program c m := by
  replace h : ((s.setClock clock).run fuel source).1 = .ok () := h
  cases hp : s.prepare s.typeCheck source with
  | error failures =>
    have hserve := @serve_run_refused s clock fuel source failures hp
    rw [show (s.setClock clock).run fuel source = s.serve .none (.run clock fuel source) from rfl,
      hserve] at h
    cases h
  | ok p =>
    obtain ⟨l, c⟩ := p
    obtain ⟨program, hparsed, rfl, hresolved, hchecked⟩ := prepare_ok_iff.1 hp
    rw [run_prepared clock fuel hp] at h
    unfold Machine.interpret Machine.interpretWith at h
    split at h
    next u m hrun =>
      split at hrun
      next v n hran =>
        unfold Machine.finish at hrun
        split at hrun
        next w hflush => exact ⟨program, c, n, hparsed, hresolved, hchecked, hran, hflush⟩
        next => cases hrun
      next e n hran =>
        unfold Machine.finish at hrun
        split at hrun <;> cases hrun
    next => cases h

/-- The types of two programs that are checked one after the other are those of both at once. -/
theorem checkTypes_append {s : Session} (hclosed : s.Closed) {p : List (Stmt NodeId)}
    (hs : Stmt.ShapedAll p) {q : List (Stmt NodeId)} {c₁ c₂ : Checker}
    (hp : s.checkTypes s.typeCheck p = .ok c₁) {m : Machine}
    (hq : (s.ranTo c₁ m).checkTypes s.typeCheck q = .ok c₂) {f : Nat → Nat} (h0 : f 0 = 0) :
    s.checkTypes s.typeCheck (p ++ Stmt.relabelAll ⟨f, id⟩ q) = .ok c₂ := by
  have hclosed₁ : c₁.Closed := (hclosed.checkTypes hp).1
  unfold checkTypes at hp hq ⊢
  cases ht : s.typeCheck with
  | false =>
    rw [ht] at hp hq
    exact hp.trans (hq ▸ hp ▸ rfl)
  | true =>
    rw [ht] at hp hq
    rw [if_pos rfl] at hp hq ⊢
    split at hp
    next u c hc =>
      cases hp
      split at hq
      next v d hd =>
        cases hq
        replace hd : c₁.check q = (.ok v, c₂) := hd
        obtain ⟨houtcome, hstate⟩ := hclosed₁.check_onLines h0 q
        rw [hd] at houtcome hstate
        rw [Checker.check_append hs hc,
          show c₁.check (Stmt.relabelAll ⟨f, id⟩ q) = (.ok (), c₂) from Prod.ext houtcome hstate]
      · cases hq
    · cases hp

/-- Two runs that end well are one run. -/
theorem RunsTo.joined {s : Session} (hclosed : s.Closed) {first second : String}
    {p q : List (Stmt Unit)} {c₁ c₂ : Checker} {m₁ m₂ : Machine} {fuel₁ fuel₂ : Nat}
    (h₁ : s.RunsTo clock fuel₁ first p c₁ m₁)
    (h₂ : (s.ranTo c₁ m₁).RunsTo clock fuel₂ second q c₂ m₂) (hle₁ : fuel₁ ≤ fuel)
    (hle₂ : fuel₂ ≤ fuel) :
    ∃ program m, s.RunsTo clock fuel (first ++ "\n" ++ second) program c₂ m ∧
      m.withoutLines = (m₂.printedAfter m₁.sink.written).withoutLines := by
  obtain ⟨k, hparsed⟩ := parse_joined h₁.parsed h₂.parsed
  obtain ⟨hahead, hsetting⟩ := hclosed.machine.runAll_ahead clock p q hle₁ h₁.ran
  have hnext : (s.ranTo c₁ m₁).machine.nextUse = (Loaded.ofProgram s.machine.nextUse p).next :=
    (congrArg (fun t => t.distances.size) hsetting).trans
      (Machine.nextUse_load (Loaded.ofProgram_numbered ..))
  have hresolved := h₂.resolved
  have hchecked := h₂.checked
  have hran := h₂.ran
  rw [hnext] at hresolved hchecked hran
  have hbehind := Loaded.ofProgram_append s.machine.nextUse p q (Lexer.later k)
  have hnumbered := Loaded.ofProgram_numbered s.machine.nextUse p
  dsimp only at hbehind hahead hsetting hran
  generalize hl : Loaded.ofProgram s.machine.nextUse p = l at *
  generalize hr : Loaded.ofProgram l.next q = r at *
  have hbelow : l.next ≤ r.next := hr ▸ (Loaded.ofProgram_numbered l.next q).le
  have hload : s.machine.load ⟨l.program ++ Stmt.relabelAll ⟨Lexer.later k, id⟩ r.program, r.next,
      l.report ++ r.report.relabel ⟨Lexer.later k, id⟩⟩ = (s.machine.load l).load r :=
    Machine.load_append hnumbered hbelow (congrArg (l.report.notes ++ ·) (List.map_id' _))
  rw [Machine.ran_eq_printedAfter l r hsetting] at hahead
  obtain ⟨ρ, hρ⟩ := Machine.exists_continues (fun i => i) s.machine.nextUse s.machine.nextUse
  obtain ⟨clock', hclock, -⟩ := (hclosed.machine.code clock ρ hρ).natives
  have hnatives : m₁.natives.modify 0 (fun _ => .clock clock) = #[.clock clock] := by
    rw [show m₁.natives = #[.clock clock'] from
      (congrArg Machine.Setting.natives hsetting).trans hclock]
    rfl
  obtain ⟨m, hm, hsame⟩ := Machine.runAll_onLines hnatives (Lexer.later k) m₁.sink.written hle₂ hran
  refine ⟨_, m, ⟨hparsed, ?_, ?_, ?_, ?_⟩, hsame⟩
  · rw [hbehind]
    show l.report.errors ++ r.report.errors.map _ = []
    rw [hresolved, ← hl, h₁.resolved]
    rfl
  · rw [hbehind]
    exact checkTypes_append hclosed (hl ▸ h₁.shaped) (hl ▸ h₁.checked) hchecked rfl
  · dsimp only
    rw [hbehind, hload]
    exact (Machine.runAll_append hahead _).trans hm
  · have hsink := congrArg Machine.sink hsame
    replace hsink : m.sink = (m₂.printedAfter m₁.sink.written).sink := hsink
    rw [hsink]
    exact h₂.flushed

/-- A source that runs well after another one runs well below it, in one run: the output of this run is that
of both, and the types, the global names and everything else in the session are the same afterwards, but
for the lines on which its code stands. -/
theorem run_joined (typeCheck : Bool) (clock₀ : Clock) (room : Option Nat) (flushFails : Bool)
    (requests : List Request) (clock : Clock) (fuel₁ fuel₂ fuel : Nat) (first second : String) :
    let s := (new typeCheck clock₀ ⟨.empty, room, flushFails⟩).after requests
    let (e₁, s₁) := s.exchange (.run clock fuel₁ first)
    let (e₂, s₂) := s₁.exchange (.run clock fuel₂ second)
    let (e, s') := s.exchange (.run clock fuel (first ++ "\n" ++ second))
    e₁.answer = .ok () → e₂.answer = .ok () → fuel₁ ≤ fuel → fuel₂ ≤ fuel →
      e.answer = .ok () ∧ e.printed = e₁.printed ++ e₂.printed ∧ s'.checker = s₂.checker ∧
        s'.machine.withoutLines = s₂.machine.withoutLines := by
  intro s
  dsimp only
  intro h₁ h₂ hle₁ hle₂
  have hclosed : s.Closed := (new_closed ..).after requests
  obtain ⟨p, c₁, m₁, h₁⟩ := exists_runsTo h₁
  rw [h₁.exchange] at h₂ ⊢
  obtain ⟨q, c₂, m₂, h₂⟩ := exists_runsTo h₂
  obtain ⟨program, m, h, hm⟩ := h₁.joined hclosed h₂ hle₁ hle₂
  rw [h₂.exchange, h.exchange]
  refine ⟨rfl, congrArg (·.sink.written) hm, rfl, ?_⟩
  exact congrArg (fun m => m.takeOutput.2) hm

/-- A declaration in one run and a use of it in the next one print what both print in one run. -/
theorem run_joined_print :
    let s := (new true (.error "") .unlimited).after []
    let (e₁, s₁) := s.exchange (.run (.error "") 5 "var a = true;")
    let (e₂, s₂) := s₁.exchange (.run (.error "") 5 "print a;")
    let (e, s') := s.exchange (.run (.error "") 5 ("var a = true;" ++ "\n" ++ "print a;"))
    e₁.answer = .ok () ∧ e₂.answer = .ok () ∧ e.answer = .ok () ∧ e.printed = "true\n".toUTF8 ∧
      s'.checker = s₂.checker ∧ s'.machine.withoutLines = s₂.machine.withoutLines := by
  obtain ⟨hanswer, hprinted, hchecker, hmachine⟩ := run_joined true (.error "") none false []
    (.error "") 5 5 5 "var a = true;" "print a;" (by decide +kernel) (by decide +kernel)
    (Nat.le_refl 5) (Nat.le_refl 5)
  exact ⟨by decide +kernel, by decide +kernel, hanswer, hprinted.trans (by decide +kernel), hchecker,
    hmachine⟩

end Session

end ClassScript
