import ClassScript.Proofs.AlikeMachines
import ClassScript.Proofs.GlobalFrames
import ClassScript.Proofs.RelabeledChecks

/-!
# Programs one behind the other

Between two statements at the top level nothing is kept but the global names: no scope is open. So
numbering, resolving, checking and running the statements of one program and then those of another one is
the same as doing it with all of them at once.
-/

set_option autoImplicit false

namespace ClassScript

variable {ι : Type}

/-! ## Numbering and resolving -/

theorem Stmt.numberAll_append (p q : List (Stmt ι)) (n : NodeId) :
    (Stmt.numberAll (p ++ q)).run n =
      let (first, between) := (Stmt.numberAll p).run n
      let (second, next) := (Stmt.numberAll q).run between
      (first ++ second, next) := by
  induction p generalizing n with
  | nil => rfl
  | cons s rest ih =>
    have hrest := ih (s.number.run n).2
    exact congrArg (fun r => ((s.number.run n).1 :: r.1, r.2)) hrest

/-- A program and another one behind it, on other lines, are loaded one after the other. -/
theorem Loaded.ofProgram_append (first : NodeId) (p q : List (Stmt Unit)) (f : Nat → Nat) :
    let l := ofProgram first p
    let r := ofProgram l.next q
    ofProgram first (p ++ Stmt.relabelAll ⟨f, id⟩ q) =
      ⟨l.program ++ Stmt.relabelAll ⟨f, id⟩ r.program, r.next, l.report ++ r.report.relabel ⟨f, id⟩⟩ := by
  intro l r
  obtain ⟨hprogram, hreport, k, hk, hk'⟩ := @ofProgram_relabel ⟨f, id⟩ ⟨f, id⟩ rfl l.next l.next q
    fun _ _ => rfl
  have hnext : (ofProgram l.next (Stmt.relabelAll ⟨f, id⟩ q)).next = r.next := hk'.trans hk.symm
  have hnumbered := Stmt.numberAll_append p (Stmt.relabelAll ⟨f, id⟩ q) first
  have happend : ofProgram first (p ++ Stmt.relabelAll ⟨f, id⟩ q) =
      let s := ofProgram l.next (Stmt.relabelAll ⟨f, id⟩ q)
      ⟨l.program ++ s.program, s.next, resolve (l.program ++ s.program)⟩ :=
    congrArg (fun n : List (Stmt NodeId) × NodeId => Loaded.mk n.1 n.2 (resolve n.1)) hnumbered
  rw [happend]
  dsimp only
  rw [resolve_append, hnext]
  refine congrArg₂ (Loaded.mk · r.next ·) (congrArg _ hprogram) ?_
  exact congrArg (l.report ++ ·) hreport

/-! ## Loading -/

namespace Machine

variable {m : Machine}

theorem reserve_reserve {a b : NodeId} (ha : m.nextUse ≤ a) (hb : a ≤ b) :
    (m.reserve a).reserve b = m.reserve b := by
  have hsize : (m.distances ++ Array.replicate (a - m.distances.size) none).size = a :=
    nextUse_reserve m ha
  unfold reserve
  dsimp only
  have hcount {n a b : Nat} (ha : n ≤ a) (hb : a ≤ b) : a - n + (b - a) = b - n := by omega
  have hsum : a - m.distances.size + (b - a) = b - m.distances.size := hcount ha hb
  rw [hsize, Array.append_assoc, Array.replicate_append_replicate, hsum]

/-- Notes about uses that there is room for may be taken before there is room for others. -/
theorem reserve_note (next : NodeId) {notes : List (NodeId × Nat)}
    (h : ∀ n ∈ notes, n.1 < m.nextUse) : (m.note notes).reserve next = (m.reserve next).note notes := by
  induction notes generalizing m with
  | nil => rfl
  | cons n rest ih =>
    have hmodify (ds : Array (Option Nat)) (extra : Array (Option Nat)) (hn : n.1 < ds.size) :
        (ds ++ extra).modify n.1 (fun _ => some n.2) = ds.modify n.1 (fun _ => some n.2) ++ extra := by
      refine Array.ext_getElem? fun i => ?_
      simp only [Array.getElem?_modify, Array.getElem?_append, Array.size_modify]
      grind
    obtain ⟨hn, hrest⟩ := List.forall_mem_cons.1 h
    have hfirst := @ih { m with distances := m.distances.modify n.1 fun _ => some n.2 }
      (by simpa [nextUse] using hrest)
    have hroom : { m with distances := m.distances.modify n.1 fun _ => some n.2 }.reserve next =
        { m.reserve next with
          distances := (m.reserve next).distances.modify n.1 fun _ => some n.2 } := by
      unfold reserve
      dsimp only
      rw [Array.size_modify, hmodify _ _ hn]
    exact hfirst.trans (congrArg (note · rest) hroom)

theorem note_append (m : Machine) (notes others : List (NodeId × Nat)) :
    m.note (notes ++ others) = (m.note notes).note others := by
  unfold note
  rw [List.foldl_append]

/-- Loading two programs at once is loading one after the other. -/
theorem load_append {l r : Loaded} (hl : l.Numbered m.nextUse) (hr : l.next ≤ r.next)
    {program : List (Stmt NodeId)} {report : Report}
    (hnotes : report.notes = l.report.notes ++ r.report.notes) :
    m.load ⟨program, r.next, report⟩ = (m.load l).load r := by
  have hroom : ∀ n ∈ l.report.notes, n.1 < (m.reserve l.next).nextUse := by
    rw [nextUse_reserve m hl.le]
    exact fun n hn => (hl.notes n hn).2
  unfold load
  dsimp only
  rw [hnotes, note_append, reserve_note _ hroom, reserve_reserve hl.le hr]

end Machine

/-! ## Checking and running -/

theorem Typing.checkStmts_cons_apply (returns : Ty) (s : Stmt ι) (ss : List (Stmt ι))
    (st : TypeState) :
    checkStmts returns (s :: ss) st =
      match checkStmt returns s st with
      | .ok _ st' => checkStmts returns ss st'
      | .error e st' => .error e st' := by
  rw [checkStmts]
  show EStateM.bind (checkStmt returns s) (fun _ => checkStmts returns ss) st = _
  unfold EStateM.bind
  cases checkStmt returns s st <;> rfl

theorem Typing.checkStmts_append {returns : Ty} {p : List (Stmt ι)} {st mid : TypeState} {u : Unit}
    (h : checkStmts returns p st = .ok u mid) (q : List (Stmt ι)) :
    checkStmts returns (p ++ q) st = checkStmts returns q mid := by
  induction p generalizing st with
  | nil =>
    cases h
    rfl
  | cons s rest ih =>
    rw [checkStmts_cons_apply] at h
    rw [List.cons_append, checkStmts_cons_apply]
    generalize checkStmt returns s st = r at h ⊢
    cases r with
    | ok _ st' => exact ih h
    | error e st' => cases h

theorem Typing.checkStmts_top {returns : Ty} {p : List (Stmt NodeId)} {st st' : TypeState} {u : Unit}
    (hs : Stmt.ShapedAll p) (hl : st.scope.locals = []) (h : checkStmts returns p st = .ok u st') :
    st'.scope.locals = [] := by
  induction p generalizing st with
  | nil => rw [← checkStmts_nil.1 h, hl]
  | cons s rest ih =>
    obtain ⟨mid, hfirst, hrest⟩ := checkStmts_cons.1 h
    exact ih hs.2 (checkStmt_names hs.1 hl hfirst).1 hrest

/-- Behind a program that is accepted, another one is checked over what the first one has entered. -/
theorem Checker.check_append {c c' : Checker} {p : List (Stmt NodeId)} (hs : Stmt.ShapedAll p)
    (h : c.check p = (.ok (), c')) (q : List (Stmt NodeId)) : c.check (p ++ q) = c'.check q := by
  rw [check_eq] at h
  rw [check_eq, check_eq]
  split at h
  next u st hst =>
    cases h
    obtain ⟨classes, globals, locals⟩ := st
    cases (Typing.checkStmts_top hs rfl hst : locals = [])
    rw [Typing.checkStmts_append hst]
    rfl
  next => cases h

theorem Machine.runAll_append {exec : Run.ExecFn} {p : List (Stmt NodeId)} {m m' : Machine} {u : Unit}
    (h : runAll exec p m = .ok u m') (q : List (Stmt NodeId)) :
    runAll exec (p ++ q) m = runAll exec q m' := by
  induction p generalizing m with
  | nil =>
    cases h
    rfl
  | cons s rest ih =>
    rw [runAll, Run.bind_apply] at h
    rw [List.cons_append, runAll, Run.bind_apply]
    cases hr : exec s m with
    | ok a n =>
      rw [hr] at h
      exact ih h
    | error e n =>
      rw [hr] at h
      cases h

end ClassScript
