import ClassScript.Proofs.Inspection
import ClassScript.Proofs.RelabeledPrograms
import ClassScript.Proofs.RelabeledRuns

/-!
# Machines that have loaded different programs

A machine that has loaded programs which another one has not seen numbers later uses of names
differently, and that is all: `Machine.Alike` says that the code of the two machines is the same under
every relabelling that continues the one of the uses so far. It is kept when both load the same program
(`Alike.load`), when only the second one loads one (`Alike.loadSecond`), and by runs
(`Alike.interpret`).
-/

set_option autoImplicit false

namespace ClassScript

/-! ## Loading a relabelled program -/

/-- A program on other lines that is numbered from another number on is relabelled, and so is the report
on it. -/
theorem Loaded.ofProgram_relabel {σ : Relabel Unit Unit} {ρ : Relabel NodeId NodeId}
    (hline : σ.line = ρ.line) (n n' : NodeId) (program : List (Stmt Unit))
    (hρ : ∀ i, n + i < (ofProgram n program).next → ρ.use (n + i) = n' + i) :
    (ofProgram n' (Stmt.relabelAll σ program)).program =
        Stmt.relabelAll ρ (ofProgram n program).program ∧
      (ofProgram n' (Stmt.relabelAll σ program)).report = (ofProgram n program).report.relabel ρ ∧
      ∃ k, (ofProgram n program).next = n + k ∧
        (ofProgram n' (Stmt.relabelAll σ program)).next = n' + k := by
  let ρ₀ : Relabel NodeId NodeId := ⟨ρ.line, fun i => n' + (i - n)⟩
  have hshift : ∀ i, ρ₀.use (n + i) = n' + i := fun i =>
    congrArg (n' + ·) (Nat.add_sub_cancel_left n i)
  obtain ⟨hprogram, k, hk, hk'⟩ := @Stmt.numberAll_relabel _ _ σ ρ₀ hline program n n' hshift
  have hagree : ρ₀.AgreeOn ρ (Stmt.occurrencesAll (ofProgram n program).program) := by
    refine ⟨rfl, fun o ho => ?_⟩
    obtain ⟨hlow, hhigh⟩ := (Stmt.numberAll_numbers program n).bounds ho
    obtain ⟨i, hi⟩ := Nat.exists_eq_add_of_le hlow
    rw [hi, hshift, hρ i (hi ▸ hhigh)]
  have hsame : (ofProgram n' (Stmt.relabelAll σ program)).program =
      Stmt.relabelAll ρ (ofProgram n program).program :=
    hprogram.trans (Stmt.relabelAll_congr _ hagree)
  refine ⟨hsame, ?_, k, hk, hk'⟩
  show resolve (ofProgram n' (Stmt.relabelAll σ program)).program = _
  rw [hsame, resolve_relabel]
  rfl

namespace Machine

variable {ρ : Relabel NodeId NodeId} {pre : ByteArray} {m m' : Machine}

/-- A note about a use says of its new label what it says of the old one. -/
theorem distance?_note_relabel {notes : List (NodeId × Nat)}
    (hd : ∀ id, m'.distance? (ρ.use id) = m.distance? id)
    (hlt : ∀ n ∈ notes, n.1 < m.nextUse ∧ ρ.use n.1 < m'.nextUse)
    (hinj : ∀ n ∈ notes, ∀ id, ρ.use id = ρ.use n.1 → id = n.1) (id : NodeId) :
    (m'.note (notes.map fun n => (ρ.use n.1, n.2))).distance? (ρ.use id) =
      (m.note notes).distance? id := by
  induction notes generalizing m m' with
  | nil => exact hd id
  | cons n rest ih =>
    refine @ih { m with distances := m.distances.modify n.1 fun _ => some n.2 }
      { m' with distances := m'.distances.modify (ρ.use n.1) fun _ => some n.2 }
      (fun i => ?_) (fun k hk => ?_) fun k hk => hinj k (List.mem_cons_of_mem n hk)
    · obtain ⟨hn, hn'⟩ := hlt n (List.mem_cons_self ..)
      have hi := hd i
      simp only [distance?, nextUse, Array.getElem?_modify] at hi hn hn' ⊢
      by_cases hsame : n.1 = i
      · subst hsame
        simp [hn, hn']
      · rw [if_neg hsame, if_neg fun h => hsame (hinj n (List.mem_cons_self ..) i h.symm).symm]
        exact hi
    · simpa [nextUse] using hlt k (List.mem_cons_of_mem n hk)

/-- Machines that correspond do so after they have loaded a program and its relabelling. -/
theorem Relabels.load (h : Relabels ρ pre m m') {l l' : Loaded}
    (hreport : l'.report = l.report.relabel ρ) (hl : l.Numbered m.nextUse)
    (hl' : l'.Numbered m'.nextUse)
    (hinj : ∀ n ∈ l.report.notes, ∀ id, ρ.use id = ρ.use n.1 → id = n.1) :
    Relabels ρ pre (m.load l) (m'.load l') where
  frames := h.frames
  objects := h.objects
  natives := h.natives
  nextIdentity := h.nextIdentity
  current := h.current
  sink := h.sink
  distance := by
    have hnotes : l'.report.notes = l.report.notes.map fun n => (ρ.use n.1, n.2) := by
      rw [hreport]
      rfl
    intro id
    unfold Machine.load
    rw [hnotes]
    refine distance?_note_relabel (fun i => ?_) (fun n hn => ⟨?_, ?_⟩) hinj id
    · rw [distance?_reserve, distance?_reserve, h.distance]
    · rw [nextUse_reserve m hl.le]
      exact (hl.notes n hn).2
    · rw [nextUse_reserve m' hl'.le]
      refine (hl'.notes (ρ.use n.1, n.2) ?_).2
      rw [hnotes]
      exact List.mem_map_of_mem hn

theorem Relabels.setClock (h : Relabels ρ pre m m') (clock : Clock) :
    Relabels ρ pre (m.setClock clock) (m'.setClock clock) := by
  obtain ⟨c, hc, hc'⟩ := h.natives
  exact { h with natives := ⟨clock, by simp [Machine.setClock, hc], by simp [Machine.setClock, hc']⟩ }

theorem Relabels.globals (h : Relabels ρ pre m m') :
    m'.globals = m.globals.map (Value.relabel ρ) := by
  rw [Machine.globals, h.frames, Frames.vars_map]
  rfl

theorem Relabels.restoreGlobals (h : Relabels ρ pre m m') {vars vars' : Bindings Value}
    (hvars : vars' = vars.map (Value.relabel ρ)) :
    Relabels ρ pre (m.restoreGlobals vars) (m'.restoreGlobals vars') :=
  { h with
    frames := by
      simp only [Machine.restoreGlobals, h.frames, hvars, Frames.map_restore] }

/-! ## Machines that are alike -/

/-- The relabelling of the uses of names does with those below `n` what `base` does, and takes no other
one below `n'`. -/
structure Continues (base : NodeId → NodeId) (n n' : NodeId) (ρ : Relabel NodeId NodeId) : Prop where
  line : ρ.line = fun l => l
  old : ∀ i < n, ρ.use i = base i
  new : ∀ i, n ≤ i → n' ≤ ρ.use i

/-- What `base` does to the uses below `n`, and a shift of the others to those from `n'` on. -/
def continuation (base : NodeId → NodeId) (n n' : NodeId) (i : NodeId) : NodeId :=
  if i < n then base i else n' + (i - n)

theorem continuation_old {base : NodeId → NodeId} {n n' i : NodeId} (h : i < n) :
    continuation base n n' i = base i :=
  if_pos h

theorem continuation_add (base : NodeId → NodeId) (n n' i : NodeId) :
    continuation base n n' (n + i) = n' + i := by
  rw [continuation, if_neg (Nat.not_lt.2 (Nat.le_add_right n i)), Nat.add_sub_cancel_left]

theorem continues_continuation (base : NodeId → NodeId) (n n' : NodeId) :
    Continues base n n' ⟨fun l => l, continuation base n n'⟩ where
  line := rfl
  old _ h := continuation_old h
  new i h := by
    obtain ⟨j, rfl⟩ := Nat.exists_eq_add_of_le h
    show n' ≤ continuation base n n' (n + j)
    rw [continuation_add]
    exact Nat.le_add_right n' j

theorem exists_continues (base : NodeId → NodeId) (n n' : NodeId) : ∃ ρ, Continues base n n' ρ :=
  ⟨_, continues_continuation base n n'⟩

/-- A program numbered from `n'` on is that numbered from `n` on under a relabelling that shifts its
uses. -/
theorem ofProgram_continues {base : NodeId → NodeId} {n n' : NodeId} (program : List (Stmt Unit))
    {ρ : Relabel NodeId NodeId} (hρ : Continues (continuation base n n')
      (Loaded.ofProgram n program).next (Loaded.ofProgram n' program).next ρ) :
    ((Loaded.ofProgram n' program).program =
        Stmt.relabelAll ρ (Loaded.ofProgram n program).program ∧
      (Loaded.ofProgram n' program).report =
        (Loaded.ofProgram n program).report.relabel ρ ∧
      ∃ k, (Loaded.ofProgram n program).next = n + k ∧
        (Loaded.ofProgram n' program).next = n' + k) ∧
      Continues base n n' ρ := by
  have hprogram := @Loaded.ofProgram_relabel .same ρ hρ.line.symm n n' program
    fun i hi => (hρ.old _ hi).trans (continuation_add ..)
  rw [Stmt.relabelAll_same] at hprogram
  refine ⟨hprogram, hρ.line, fun i hi => ?_, fun i hi => ?_⟩
  · obtain ⟨-, -, k, hk, -⟩ := hprogram
    rw [hρ.old i (hk ▸ Nat.lt_add_right k hi), continuation_old hi]
  · obtain ⟨-, -, k, hk, hk'⟩ := hprogram
    by_cases hlt : i < (Loaded.ofProgram n program).next
    · obtain ⟨j, rfl⟩ := Nat.exists_eq_add_of_le hi
      rw [hρ.old _ hlt, continuation_add]
      exact Nat.le_add_right n' j
    · exact Nat.le_trans (hk' ▸ Nat.le_add_right n' k) (hρ.new i (Nat.le_of_not_lt hlt))

/-- The machines differ in the numbers of uses of names only, and those that were never loaded into the
first one are not in its code: the code is the same under every relabelling that continues `base`. -/
structure Alike (base : NodeId → NodeId) (m m' : Machine) : Prop where
  below : ∀ i < m.nextUse, base i < m'.nextUse
  code : ∀ clock ρ, Continues base m.nextUse m'.nextUse ρ →
    Relabels ρ .empty (m.setClock clock) (m'.setClock clock)

/-- Only the clock that was set last is known. -/
theorem setClock_setClock (m : Machine) (clock clock' : Clock) :
    (m.setClock clock).setClock clock' = m.setClock clock' := by
  unfold Machine.setClock
  congr 1
  refine Array.ext_getElem? fun i => ?_
  simp only [Array.getElem?_modify]
  split
  · cases m.natives[i]? <;> rfl
  · rfl

/-- A new machine holds no code. -/
theorem new_alike (base : NodeId → NodeId) (clock : Clock) (sink : Sink) :
    Alike base (new clock sink) (new clock sink) := by
  refine ⟨fun i hi => absurd hi (Nat.not_lt_zero i), fun c ρ _ => ?_⟩
  refine ⟨?_, ?_, ⟨c, rfl, rfl⟩, rfl, rfl, ?_, fun _ => rfl⟩
  · show Frames.new.define globalFrame "clock" (.native 0 0) = Frames.map (Value.relabel ρ) _
    rw [show ((new clock sink).setClock c).frames = Frames.new.define globalFrame "clock" (.native 0 0)
      from rfl, Frames.map_define, Frames.map_new]
    rfl
  · exact Array.map_empty.symm
  · show sink = ⟨.empty ++ sink.written, sink.room, sink.flushFails⟩
    rw [ByteArray.empty_append]

namespace Alike

variable {base : NodeId → NodeId}

theorem setClock (h : Alike base m m') (clock clock' : Clock) :
    Alike base (m.setClock clock) (m'.setClock clock') where
  below := h.below
  code c ρ hρ := by
    rw [setClock_setClock, setClock_setClock]
    exact h.code c ρ hρ

theorem setClockSecond (h : Alike base m m') (clock : Clock) :
    Alike base m (m'.setClock clock) where
  below := h.below
  code c ρ hρ := by
    rw [setClock_setClock]
    exact h.code c ρ hρ

/-- Both machines load a program. -/
theorem load (h : Alike base m m') (program : List (Stmt Unit)) :
    Alike (continuation base m.nextUse m'.nextUse) (m.load (.ofProgram m.nextUse program))
      (m'.load (.ofProgram m'.nextUse program)) := by
  have hl := Loaded.ofProgram_numbered m.nextUse program
  have hl' := Loaded.ofProgram_numbered m'.nextUse program
  have hbelow : ∀ i < (Loaded.ofProgram m.nextUse program).next,
      continuation base m.nextUse m'.nextUse i < (Loaded.ofProgram m'.nextUse program).next := by
    intro i hi
    obtain ⟨⟨-, -, k, hk, hk'⟩, -⟩ := @ofProgram_continues base m.nextUse m'.nextUse program _
      (continues_continuation ..)
    by_cases hlt : i < m.nextUse
    · rw [continuation_old hlt]
      exact Nat.lt_of_lt_of_le (h.below i hlt) hl'.le
    · obtain ⟨j, rfl⟩ := Nat.exists_eq_add_of_le (Nat.le_of_not_lt hlt)
      rw [hk] at hi
      rw [continuation_add, hk']
      exact Nat.add_lt_add_left (Nat.lt_of_add_lt_add_left hi) _
  refine ⟨?_, fun clock ρ hρ => ?_⟩
  · rw [nextUse_load hl, nextUse_load hl']
    exact hbelow
  · rw [nextUse_load hl, nextUse_load hl'] at hρ
    obtain ⟨⟨-, hreport, -⟩, hcontinues⟩ := ofProgram_continues program hρ
    refine (h.code clock ρ hcontinues).load hreport hl hl' fun n hn id hid => ?_
    obtain ⟨hlow, hhigh⟩ := hl.notes n hn
    obtain ⟨i, hi⟩ := Nat.exists_eq_add_of_le hlow
    have hnote : ρ.use n.1 = m'.nextUse + i := by rw [hρ.old _ hhigh, hi, continuation_add]
    rw [hnote] at hid
    by_cases hlt : id < (Loaded.ofProgram m.nextUse program).next
    · rw [hρ.old id hlt] at hid
      by_cases hold : id < m.nextUse
      · rw [continuation_old hold] at hid
        exact absurd (hid ▸ h.below id hold) (Nat.not_lt.2 (Nat.le_add_right m'.nextUse i))
      · obtain ⟨j, rfl⟩ := Nat.exists_eq_add_of_le (Nat.le_of_not_lt hold)
        rw [continuation_add] at hid
        rw [hi, Nat.add_left_cancel hid]
    · have hlast := hbelow n.1 hhigh
      rw [hi, continuation_add] at hlast
      exact absurd (hid ▸ hρ.new id (Nat.le_of_not_lt hlt)) (Nat.not_le.2 hlast)

/-- Only the second machine loads a program. -/
theorem loadSecond (h : Alike base m m') (program : List (Stmt Unit)) :
    Alike base m (m'.load (.ofProgram m'.nextUse program)) := by
  have hl' := Loaded.ofProgram_numbered m'.nextUse program
  refine ⟨fun i hi => ?_, fun clock ρ hρ => ?_⟩
  · rw [nextUse_load hl']
    exact Nat.lt_of_lt_of_le (h.below i hi) hl'.le
  · rw [nextUse_load hl'] at hρ
    have hm := h.code clock ρ ⟨hρ.line, hρ.old, fun i hi => Nat.le_trans hl'.le (hρ.new i hi)⟩
    refine { hm with distance := fun id => ?_ }
    show (m'.load (.ofProgram m'.nextUse program)).distance? (ρ.use id) = m.distance? id
    by_cases hid : id < m.nextUse
    · rw [hρ.old id hid, distance?_load_of_lt hl' (h.below id hid), ← hρ.old id hid]
      exact hm.distance id
    · have hnew := hρ.new id (Nat.le_of_not_lt hid)
      rw [distance?_of_le (Nat.le_of_not_lt hid), distance?_of_le]
      rw [nextUse_load hl']
      exact hnew

/-- Global names that are alike are brought back. -/
theorem restoreGlobals (h : Alike base m m') {vars vars' : Bindings Value}
    (hvars : ∀ ρ, Continues base m.nextUse m'.nextUse ρ → vars' = vars.map (Value.relabel ρ)) :
    Alike base (m.restoreGlobals vars) (m'.restoreGlobals vars') :=
  ⟨h.below, fun clock ρ hρ => (h.code clock ρ hρ).restoreGlobals (hvars ρ hρ)⟩

/-- Machines that are alike run a program, each as it numbers it, with the same outcome, and are alike
afterwards. -/
theorem interpret {program program' : List (Stmt NodeId)} (h : Alike base m m') {clock : Clock}
    (hprogram : ∀ ρ, Continues base m.nextUse m'.nextUse ρ → program' = Stmt.relabelAll ρ program)
    (fuel : Nat) :
    ((m'.setClock clock).interpret fuel program').1 = ((m.setClock clock).interpret fuel program).1 ∧
      Alike base ((m.setClock clock).interpret fuel program).2
        ((m'.setClock clock).interpret fuel program').2 ∧
      ((m.setClock clock).interpret fuel program).2.nextUse = m.nextUse ∧
      ((m'.setClock clock).interpret fuel program').2.nextUse = m'.nextUse := by
  have hrun (ρ) (hρ : Continues base m.nextUse m'.nextUse ρ) :=
    hprogram ρ hρ ▸ @interpret_follows ρ .empty False (by rw [hρ.line]) fuel fuel (.inl rfl) _ _
      (h.code clock ρ hρ) program False.elim
  have hsame (o : Except Stop Unit) : outcomeOnLine (fun l => l) o = o := by
    cases o with
    | ok u => rfl
    | error e => cases e <;> rfl
  obtain ⟨⟨houtcome, -⟩, hsetting, hsetting'⟩ := hrun _ (continues_continuation ..)
  have hnext : ((m.setClock clock).interpret fuel program).2.nextUse = m.nextUse :=
    congrArg (fun s => s.distances.size) hsetting
  have hnext' : ((m'.setClock clock).interpret fuel program').2.nextUse = m'.nextUse :=
    congrArg (fun s => s.distances.size) hsetting'
  refine ⟨houtcome.trans (hsame _), ⟨?_, fun c ρ hρ => ?_⟩, hnext, hnext'⟩
  · rw [hnext, hnext']
    exact h.below
  · rw [hnext, hnext'] at hρ
    exact (hrun ρ hρ).1.2.setClock c

end Alike

end Machine

end ClassScript
