import ClassScript.Proofs.Traces

/-!
# What a session holds is its own

The types of a session are about classes that its checker has entered, and the code that its machine holds
uses no name that it has not loaded. So other classes, and other uses of names, may get any number:
nothing changes. Requests keep sessions closed in this sense (`Session.Closed.exchange`).
-/

set_option autoImplicit false

namespace ClassScript

/-! ## Types over the same classes -/

/-- The first `n` classes, each of which corresponds to itself. -/
def ClassPairs.diagonal (n : ClassId) : ClassPairs where
  pair i j := i = j ∧ i < n
  left h h' := h.1.trans h'.1.symm
  right h h' := h.1.symm.trans h'.1
  next := n
  next' := n

/-- New classes on both sides get the same numbers. -/
theorem ClassPairs.Grow.eq_diagonal {n : ClassId} {K : ClassPairs} (h : (diagonal n).Grow K) :
    K = diagonal K.next := by
  obtain ⟨hle, hnext⟩ : n ≤ K.next ∧ n + K.next' = K.next + n := h.next
  have hpair : K.pair = (diagonal K.next).pair := by
    funext i j
    refine propext ((h.pair i j).trans ⟨?_, fun ⟨hij, hlt⟩ => ?_⟩)
    · rintro (⟨rfl, hlt⟩ | ⟨-, hlt, hj⟩)
      · exact ⟨rfl, Nat.lt_of_lt_of_le hlt hle⟩
      · exact ⟨(Nat.add_left_cancel (hj.trans (Nat.add_comm ..))).symm, hlt⟩
    · by_cases hi : i < n
      · exact .inl ⟨hij, hi⟩
      · exact .inr ⟨Nat.le_of_not_lt hi, hlt, hij ▸ Nat.add_comm ..⟩
  have hright : K.next' = K.next := Nat.add_left_cancel (hnext.trans (Nat.add_comm ..))
  obtain ⟨pair, left, right, next, next'⟩ := K
  cases (show next' = next from hright)
  cases (show pair = fun i j => i = j ∧ i < next from hpair)
  rfl

section

variable {n : ClassId}

mutual

theorem Ty.Like.eq : ∀ {a b : Ty}, a.Like (.diagonal n) b → b = a
  | _, _, .nil => rfl
  | _, _, .number => rfl
  | _, _, .string => rfl
  | _, _, .boolean => rfl
  | _, _, .void => rfl
  | _, _, .function hps hr => congrArg₂ (Ty.function _) hps.eq hr.eq
  | _, _, .classObject h => congrArg Ty.classObject h.1.symm
  | _, _, .object h => congrArg Ty.object h.1.symm
termination_by structural _ _ h => h

theorem Ty.LikeAll.eq : ∀ {as bs : List Ty}, Ty.LikeAll (.diagonal n) as bs → bs = as
  | _, _, .nil => rfl
  | _, _, .cons h hs => congrArg₂ List.cons h.eq hs.eq
termination_by structural _ _ h => h

end

theorem Signature.Like.eq {s s' : Signature} (h : s.Like (.diagonal n) s') : s' = s := by
  obtain ⟨name, params, result⟩ := s
  obtain ⟨name', params', result'⟩ := s'
  obtain ⟨rfl, hparams, hresult⟩ := h
  cases hparams.eq
  cases hresult.eq
  rfl

theorem Bindings.Forall₂.eq {α : Type} {R : α → α → Prop} {b c : Bindings α} (h : Forall₂ R b c)
    (hR : ∀ v w, R v w → w = v) : c = b := by
  obtain ⟨entries⟩ := b
  obtain ⟨entries'⟩ := c
  replace h : List.Forall₂ (fun p q => p.1 = q.1 ∧ R p.2 q.2) entries entries' := h
  have hsame : List.Forall₂ Eq entries entries' :=
    h.imp fun _ _ hpq => Prod.ext hpq.1 (hR _ _ hpq.2).symm
  rw [List.forall₂_eq_eq_eq] at hsame
  rw [hsame]

theorem ClassInfo.Like.eq {c d : ClassInfo} (h : c.Like (.diagonal n) d) : d = c := by
  obtain ⟨name, ancestors, methods, fields⟩ := c
  obtain ⟨name', ancestors', methods', fields'⟩ := d
  obtain ⟨rfl, hancestors, hmethods, hfields⟩ := h
  have hsame : List.Forall₂ Eq ancestors ancestors' := hancestors.imp fun _ _ hij => hij.1
  rw [List.forall₂_eq_eq_eq] at hsame
  cases hsame
  cases hmethods.eq fun _ _ => Signature.Like.eq
  cases hfields.eq fun _ _ => Ty.Like.eq
  rfl

theorem ClassTable.Like.eq {t t' : ClassTable} (h : t.Like (.diagonal n) t') : t' = t := by
  obtain ⟨classes⟩ := t
  obtain ⟨classes'⟩ := t'
  refine congrArg ClassTable.mk (Array.ext_getElem? fun i => ?_)
  by_cases hi : i < n
  · obtain ⟨c, d, hc, hd, hcd⟩ := h.classes i i ⟨rfl, hi⟩
    exact hd.trans ((congrArg some hcd.eq).trans hc.symm)
  · have hsize : classes.size = n := h.next
    have hsize' : classes'.size = n := h.next'
    rw [Array.getElem?_eq_none (Nat.le_trans (Nat.le_of_eq hsize) (Nat.le_of_not_lt hi)),
      Array.getElem?_eq_none (Nat.le_trans (Nat.le_of_eq hsize') (Nat.le_of_not_lt hi))]

end

namespace Checker

variable {c c' : Checker}

theorem Like.eq {n : ClassId} (h : c.Like (.diagonal n) c') : c' = c := by
  obtain ⟨classes, globals⟩ := c
  obtain ⟨classes', globals'⟩ := c'
  cases h.classes.eq
  cases h.globals.eq fun _ _ => Ty.Like.eq
  rfl

/-- The types are about classes of the checker. -/
def Closed (c : Checker) : Prop :=
  ∃ n, c.Like (.diagonal n) c

theorem new_closed : new.Closed :=
  ⟨0, ⟨fun _ _ h => absurd h.2 (Nat.not_lt_zero _), rfl, rfl⟩,
    .single "clock" (.function .nil .number)⟩

theorem Closed.check (h : c.Closed) (program : List (Stmt NodeId)) :
    (c.check program).2.Closed ∧ ((c.check program).2.restore c.globals).Closed := by
  obtain ⟨n, hn⟩ := h
  obtain ⟨-, K, hgrow, hK⟩ := @check_agrees _ _ .same rfl _ _ _ hn program
  rw [Stmt.relabelAll_same] at hK
  have hglobals := hn.globals.mono fun _ _ => Ty.Like.mono hgrow.le
  rw [hgrow.eq_diagonal] at hK hglobals
  exact ⟨⟨K.next, hK⟩, K.next, hK.classes, hglobals⟩

/-- On other lines a program is checked alike. -/
theorem Closed.check_onLines (h : c.Closed) {f : Nat → Nat} (h0 : f 0 = 0)
    (program : List (Stmt NodeId)) :
    (c.check (Stmt.relabelAll ⟨f, id⟩ program)).1 = outcomeOnLine f (c.check program).1 ∧
      (c.check (Stmt.relabelAll ⟨f, id⟩ program)).2 = (c.check program).2 := by
  obtain ⟨n, hn⟩ := h
  obtain ⟨houtcome, K, hgrow, hK⟩ := @check_agrees _ _ ⟨f, id⟩ h0 _ _ _ hn program
  rw [hgrow.eq_diagonal] at hK
  exact ⟨houtcome, hK.eq⟩

end Checker

/-! ## Code with uses of loaded names -/

namespace Machine

variable {m : Machine}

theorem Continues.earlier {n n' k k' : NodeId} {ρ : Relabel NodeId NodeId}
    (h : Continues (fun i => i) n n' ρ) (hk : k ≤ n) (hk' : k' ≤ n') (hkk : k' ≤ k) :
    Continues (fun i => i) k k' ρ where
  line := h.line
  old i hi := h.old i (Nat.lt_of_lt_of_le hi hk)
  new i hi := by
    by_cases hlt : i < n
    · rw [h.old i hlt]
      exact Nat.le_trans hkk hi
    · exact Nat.le_trans hk' (h.new i (Nat.le_of_not_lt hlt))

/-- A relabelling of uses of names that have not been loaded leaves the code as it is. -/
abbrev Closed (m : Machine) : Prop :=
  m.Alike (fun i => i) m

theorem continuation_self (n : NodeId) : continuation (fun i => i) n n = fun i => i := by
  funext i
  unfold continuation
  split
  · rfl
  next h => exact Nat.add_sub_cancel' (Nat.le_of_not_lt h)

namespace Closed

theorem load (h : m.Closed) (program : List (Stmt Unit)) :
    (m.load (.ofProgram m.nextUse program)).Closed := by
  have hload := Alike.load h program
  rwa [continuation_self] at hload

/-- A loaded program has no other uses of names. -/
theorem program_relabel (m : Machine) (program : List (Stmt Unit)) {n : NodeId}
    {ρ : Relabel NodeId NodeId}
    (hρ : Continues (fun i => i) (m.load (.ofProgram m.nextUse program)).nextUse n ρ) :
    (Loaded.ofProgram m.nextUse program).program =
      Stmt.relabelAll ρ (Loaded.ofProgram m.nextUse program).program := by
  rw [nextUse_load (Loaded.ofProgram_numbered m.nextUse program)] at hρ
  have hsame := @Loaded.ofProgram_relabel .same ρ hρ.line.symm m.nextUse m.nextUse program
    fun i hi => hρ.old _ hi
  rw [Stmt.relabelAll_same] at hsame
  exact hsame.1

theorem globals (h : m.Closed) {ρ : Relabel NodeId NodeId}
    (hρ : Continues (fun i => i) m.nextUse m.nextUse ρ) :
    m.globals = m.globals.map (Value.relabel ρ) :=
  (h.code (.error "") ρ hρ).globals

/-- A run of a program leaves a closed machine, also when the global names of before are brought back. -/
theorem interpret (h : m.Closed) (clock : Clock) (program : List (Stmt Unit)) (fuel : Nat) :
    let l := Loaded.ofProgram m.nextUse program
    let m' := (((m.load l).setClock clock).interpret fuel l.program).2
    m'.Closed ∧ (m'.restoreGlobals m.globals).Closed := by
  intro l m'
  obtain ⟨-, hclosed, hnext, -⟩ := @Alike.interpret _ _ _ _ _ (h.load program) clock
    (fun _ => program_relabel m program) fuel
  have hlater : m.nextUse ≤ m'.nextUse := by
    have hl := Loaded.ofProgram_numbered m.nextUse program
    rw [hnext, nextUse_load hl]
    exact hl.le
  exact ⟨hclosed, hclosed.restoreGlobals fun ρ hρ => h.globals (hρ.earlier hlater hlater (Nat.le_refl _))⟩

theorem takeOutput (h : m.Closed) : m.takeOutput.2.Closed := by
  refine ⟨h.below, fun clock ρ hρ => ?_⟩
  have hcode := h.code clock ρ hρ
  exact { hcode with sink := by simp [Machine.takeOutput, Machine.setClock] }

end Closed

end Machine

/-! ## Sessions -/

namespace Session

/-- The session holds types over its own classes, and code that uses names that it has loaded. -/
structure Closed (s : Session) : Prop where
  checker : s.checker.Closed
  machine : s.machine.Closed

theorem new_closed (typeCheck : Bool) (clock : Clock) (sink : Sink) :
    (new typeCheck clock sink).Closed :=
  ⟨Checker.new_closed, Machine.new_alike _ clock sink⟩

namespace Closed

variable {s : Session}

theorem setClock (h : s.Closed) (clock : Clock) : (s.setClock clock).Closed :=
  ⟨h.checker, Machine.Alike.setClock h.machine clock clock⟩

theorem takeOutput (h : s.Closed) : s.takeOutput.2.Closed :=
  ⟨h.checker, h.machine.takeOutput⟩

theorem inspect (h : s.Closed) (typeCheck : Bool) (source : String) :
    (s.inspect typeCheck source).Closed := by
  unfold Session.inspect
  split
  · exact h
  · dsimp only
    split
    · exact ⟨(h.checker.check _).2, h.machine.load _⟩
    · exact ⟨h.checker, h.machine.load _⟩

theorem checkTypes (h : s.Closed) {wanted : Bool} {program : List (Stmt NodeId)} {c : Checker}
    (hc : s.checkTypes wanted program = .ok c) : c.Closed ∧ (c.restore s.checker.globals).Closed := by
  unfold Session.checkTypes at hc
  have hcheck := h.checker.check program
  split at hc
  · split at hc
    next u c' hr =>
      cases hc
      rwa [hr] at hcheck
    · cases hc
  · cases hc
    exact ⟨h.checker, h.checker⟩

theorem run (h : s.Closed) (clock : Clock) (fuel : Nat) (source : String) :
    ((s.setClock clock).run fuel source).2.Closed := by
  cases hp : s.prepare s.typeCheck source with
  | error failures =>
    have hserve := @serve_run_refused s clock fuel source failures hp
    rw [show (s.setClock clock).run fuel source = s.serve .none (.run clock fuel source) from rfl,
      hserve]
    exact (h.setClock clock).inspect _ source
  | ok p =>
    obtain ⟨l, c⟩ := p
    obtain ⟨program, -, rfl, -, hc⟩ := prepare_ok_iff.1 hp
    obtain ⟨hnew, hback⟩ := h.checkTypes hc
    have hrun := h.machine.interpret clock program fuel
    rw [run_prepared clock fuel hp]
    dsimp only at hrun
    generalize ((s.machine.load (.ofProgram s.machine.nextUse program)).setClock clock).interpret fuel
      (Loaded.ofProgram s.machine.nextUse program).program = r at hrun ⊢
    obtain ⟨outcome, m⟩ := r
    cases outcome with
    | ok u => exact ⟨hnew, hrun.1⟩
    | error e => exact ⟨hback, hrun.2⟩

theorem serve (h : s.Closed) (r : Request) : (s.serve .none r).2.Closed := by
  cases r with
  | run clock fuel source => exact h.run clock fuel source
  | check source => exact h.inspect true source

theorem exchange (h : s.Closed) (r : Request) : (s.exchange r).2.Closed :=
  (h.serve r).takeOutput

end Closed

end Session

end ClassScript
