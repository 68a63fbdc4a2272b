import ClassScript.Proofs.ContainedMachines
import ClassScript.Proofs.LoopTrees
import ClassScript.Proofs.PaddedRuns

/-!
# The form of the parser means the loop

The parser puts a `while` loop in blocks for a `for` loop. It has a block around each round that the
loop has not, for the increment, and needs more fuel. So the proof goes in two steps. The loop with the
fuel that the form of the parser has (`ForLoop.flat`) ends as the loop does (`ForLoop.ends_flat_iff`), and
it does the same as the form of the parser up to the frames of these blocks (`ForLoop.flat_moves`). The
two have other numbers for their uses of names and other distances for what stands inside the block, so
their machines correspond by `Distances.between`.

`ForLoop.desugared_means_loop` says so for a loop anywhere in a program and for every contained machine
that knows the distances of the form of the parser, `ForLoop.sameRuns_of_known` for the loops of the
programs that a session has loaded.
-/

set_option autoImplicit false

namespace ClassScript

open Resolution

namespace Run

variable {α β : Type}

theorem Approximates.inScope {x y : Run α} (h : Approximates x y) :
    Approximates (Run.inScope x) (Run.inScope y) :=
  (Approximates.refl get).bind fun m =>
    (Approximates.refl (newFrame m.current .empty)).bind fun frame => h.inFrame frame

end Run

namespace ForLoop

open Run

/-! ## The form of the parser without the block around a round -/

/-- A round with the fuel that it has in the block of the parser. -/
def flatRound (loop : ForLoop NodeId) (fuel : Nat) : Run Flow :=
  match loop.increment with
  | none => execWith .none fuel loop.body
  | some e =>
    match fuel with
    | 0 => throw .outOfFuel
    | fuel + 1 => execAll (execWith .none fuel) [loop.body, .expression e]

/-- The rounds with the fuel that they have in the form of the parser. -/
def flatRounds (loop : ForLoop NodeId) : (fuel : Nat) → Run Flow
  | 0 => throw .outOfFuel
  | fuel + 1 => do
    if (← evalWith .none fuel (loop.condition.getD (.literal (.boolean true)))).isTruthy then
      match ← loop.flatRound fuel with
      | .normal => loop.flatRounds fuel
      | .returned v => return .returned v
    else return .normal

/-- The loop with the fuel that it has in the form of the parser. -/
def flat (loop : ForLoop NodeId) (fuel : Nat) : Run Flow :=
  loop.start (execWith .none fuel) (loop.flatRounds fuel)

variable (loop : ForLoop NodeId)

/-- The last statement of the block of a round computes the increment. -/
theorem execAll_increment (e : Expr NodeId) (fuel : Nat) :
    execAll (execWith .none (fuel + 1)) [.expression e] =
      (do let _ ← evalWith .none fuel e
          return .normal) := by
  simp only [execAll, execWith, Watch.none, bind_assoc, pure_bind]

theorem flatRound_approximates (fuel : Nat) : Approximates (loop.flatRound fuel) (loop.round fuel) := by
  unfold flatRound round
  cases loop.increment with
  | none =>
    -- Without an increment nothing happens after the body.
    have hbody : execWith .none fuel loop.body = execWith .none fuel loop.body >>= pure :=
      (bind_pure _).symm
    rw [hbody, bind_assoc]
    refine (Approximates.refl _).bind fun flow => ?_
    cases flow <;> exact .refl _
  | some e =>
    cases fuel with
    | zero => exact .outOfFuel _
    | succ n =>
      refine (execWith_approximates .none (Nat.le_succ n) loop.body).bind fun flow => ?_
      cases flow with
      | returned v => exact .refl _
      | normal =>
        cases n with
        | zero => exact .outOfFuel _
        | succ n =>
          show Approximates (execAll (execWith .none (n + 1)) [.expression e]) _
          rw [execAll_increment]
          exact (evalWith_approximates .none (Nat.le_add_right n 2) e).map _

theorem round_approximates (fuel : Nat) :
    Approximates (loop.round fuel) (loop.flatRound (fuel + 2)) := by
  unfold flatRound round
  cases loop.increment with
  | none =>
    have hbody : execWith .none (fuel + 2) loop.body = execWith .none (fuel + 2) loop.body >>= pure :=
      (bind_pure _).symm
    rw [hbody]
    refine (execWith_approximates .none (by omega) loop.body).bind fun flow => ?_
    cases flow <;> exact .refl _
  | some e =>
    refine (execWith_approximates .none (Nat.le_succ fuel) loop.body).bind fun flow => ?_
    cases flow with
    | normal =>
      show Approximates _ (execAll (execWith .none (fuel + 1)) [.expression e])
      rw [execAll_increment]
      exact .refl _
    | returned v => exact .refl _

theorem flatRounds_approximates (fuel : Nat) :
    Approximates (loop.flatRounds fuel) (loop.rounds fuel) := by
  induction fuel with
  | zero => exact .outOfFuel _
  | succ n ih =>
    have htest : Approximates (evalWith .none n (loop.condition.getD (.literal (.boolean true))))
        (loop.test n) := by
      unfold test
      cases loop.condition with
      | none =>
        cases n with
        | zero => exact .outOfFuel _
        | succ n => exact .refl _
      | some e => exact .refl _
    refine htest.bind fun v => ?_
    split
    · refine (loop.flatRound_approximates n).bind fun flow => ?_
      cases flow with
      | normal => exact ih
      | returned v => exact .refl _
    · exact .refl _

theorem rounds_approximates (fuel : Nat) :
    Approximates (loop.rounds fuel) (loop.flatRounds (fuel + 2)) := by
  induction fuel with
  | zero => exact .outOfFuel _
  | succ n ih =>
    have htest : Approximates (loop.test n)
        (evalWith .none (n + 2) (loop.condition.getD (.literal (.boolean true)))) := by
      unfold test
      cases loop.condition with
      | none => exact .refl _
      | some e => exact evalWith_approximates .none (by omega) e
    refine htest.bind fun v => ?_
    split
    · refine (loop.round_approximates n).bind fun flow => ?_
      cases flow with
      | normal => exact ih
      | returned v => exact .refl _
    · exact .refl _

theorem start_approximates {exec exec' : ExecFn} (hs : ∀ s, Approximates (exec s) (exec' s))
    {x y : Run Flow} (h : Approximates x y) :
    Approximates (loop.start exec x) (loop.start exec' y) := by
  unfold start
  cases loop.initializer with
  | none => exact h
  | some first =>
    refine Approximates.inScope ((hs first).bind fun flow => ?_)
    cases flow with
    | normal => exact h
    | returned v => exact .refl _

/-- The loop ends in the same way with the fuel that it has in the form of the parser. -/
theorem ends_flat_iff {m : Machine} {r : EStateM.Result Stop Machine Flow} :
    Ends loop.flat m r ↔ Ends loop.run m r := by
  constructor
  · exact fun h => h.of_approximates fun n =>
      ⟨n, loop.start_approximates (fun s => .refl _) (loop.flatRounds_approximates n)⟩
  · exact fun h => h.of_approximates fun n => ⟨n + 2, loop.start_approximates
      (execWith_approximates .none (by omega)) (loop.rounds_approximates n)⟩

/-! ## The block around a round -/

variable {loop} {D : Distances} {W : PadWorld}

theorem flatRound_moves (h : loop.Fits D) (hp : W.pad = .nowhere) (hextra : W.extra = none)
    (fuel : Nat) :
    Moves D (Flow.Moved D) W (loop.flatRound fuel)
      (execWith .none fuel (loop.roundTree.relabel D.code)) := by
  unfold flatRound roundTree
  cases hincrement : loop.increment with
  | none => exact (evaluation_moves D fuel).2 W loop.body (hp ▸ h.body hincrement)
  | some e =>
    obtain ⟨hbody, he⟩ := h.round e hincrement
    cases fuel with
    | zero => exact Related.throw rfl
    | succ n =>
      exact execAll_execBlock_moves (evaluation_moves D n).2 hp hextra
        (show Stmt.FitsAll D (.behind 0) [loop.body, .expression e] from ⟨hbody, he, trivial⟩)

theorem flatRounds_moves (h : loop.Fits D) (hp : W.pad = .nowhere) (hextra : W.extra = none)
    (fuel : Nat) :
    Moves D (Flow.Moved D) W (loop.flatRounds fuel)
      (execWith .none fuel ((Stmt.whileLoop (loop.condition.getD (.literal (.boolean true)))
        loop.roundTree).relabel D.code)) := by
  induction fuel generalizing W with
  | zero => exact Related.throw rfl
  | succ n ih =>
    have hcondition : D.MovesAll W.pad
        (loop.condition.getD (.literal (.boolean true))).occurrences := by
      rw [hp]
      have hfits := h.condition
      cases hc : loop.condition with
      | none => exact fun _ hmem => nomatch hmem
      | some e =>
        rw [hc] at hfits
        exact hfits
    refine ((evaluation_moves D n).1 W _ hcondition).bind fun W' v v' hle hv => ?_
    rw [hv.isTruthy]
    split
    · refine (flatRound_moves h (hle.pad.trans hp) (hle.extra.trans hextra) n).bind
        fun W'' r r' hle' hr => ?_
      have hle'' := hle.trans hle'
      cases hr with
      | normal => exact ih (hle''.pad.trans hp) (hle''.extra.trans hextra)
      | returned hv => exact Moves.pure (.returned hv)
    · exact Moves.pure .normal

theorem execAll_single (exec : ExecFn) (s : Stmt NodeId) : execAll exec [s] = exec s := by
  have h : exec s = exec s >>= pure := (bind_pure _).symm
  rw [h]
  refine congrArg (exec s >>= ·) (funext fun flow => ?_)
  cases flow <;> rfl

/-- The fuel of the block around the loop, if there is one. -/
def blockFuel (loop : ForLoop NodeId) : Nat :=
  if loop.initializer.isSome then 1 else 0

/-- The loop and the form of the parser do the same. -/
theorem flat_moves (h : loop.Fits D) (hp : W.pad = .nowhere) (hextra : W.extra = none)
    (fuel : Nat) :
    Moves D (Flow.Moved D) W (loop.flat fuel)
      (execWith .none (fuel + loop.blockFuel) (loop.tree.relabel D.code)) := by
  rw [tree_eq]
  unfold flat start blockFuel
  cases hfirst : loop.initializer with
  | none => exact flatRounds_moves h hp hextra fuel
  | some first =>
    refine inScope_execBlock_moves fun W' hp' hextra' => ?_
    have hp' : W'.pad = .nowhere := hp'.trans (congrArg Pad.inner hp)
    have hfits : first.Fits D W'.pad := hp' ▸ h.initializer first hfirst
    refine ((evaluation_moves D fuel).2 W' first hfits).bind fun W'' r r' hle hr => ?_
    cases hr with
    | normal =>
      show Moves D (Flow.Moved D) W'' (loop.flatRounds fuel) (execAll (execWith .none fuel) [_])
      rw [execAll_single]
      exact flatRounds_moves h (hle.pad.trans hp') (hle.extra.trans (hextra'.trans hextra)) fuel
    | returned hv => exact Moves.pure (.returned hv)

end ForLoop

/-! ## Code and machines with other numbers -/

/-- A report on relabelled code notes as much for a use as the report on the code, if no other use gets
the same number. -/
theorem Report.depth?_relabel {ρ : Relabel NodeId NodeId} {r : Report} {id : NodeId}
    (h : ∀ n ∈ r.notes, ρ.use n.1 = ρ.use id → n.1 = id) :
    (r.relabel ρ).depth? (ρ.use id) = r.depth? id := by
  unfold Report.depth? Report.relabel
  generalize r.notes = notes at h
  induction notes with
  | nil => rfl
  | cons n rest ih =>
    obtain ⟨hn, hrest⟩ := List.forall_mem_cons.1 h
    have hkeys : (ρ.use id == ρ.use n.1) = (id == n.1) := by
      rw [Bool.eq_iff_iff, beq_iff_eq, beq_iff_eq]
      exact ⟨fun he => (hn he.symm).symm, congrArg ρ.use⟩
    rw [List.map_cons, List.lookup_cons, List.lookup_cons, hkeys]
    split
    · rfl
    · exact ih hrest

/-- Places with consecutive numbers have different ones. -/
theorem Numbers.places {first next : NodeId} {os : List (Occurrence NodeId)}
    (h : Numbers first next os) {ps : List Place} (hps : ps.map (·.use) = os) :
    (ps.map fun p => p.use.id).Nodup ∧ ∀ p ∈ ps, first ≤ p.use.id ∧ p.use.id < next := by
  subst hps
  refine ⟨?_, fun p hp => h.bounds (List.mem_map_of_mem hp)⟩
  have hn := h.nodup
  rw [List.map_map] at hn
  exact hn

/-- The distances of two machines, of which the second one knows the uses of names that the first one has
numbered from `first` on by the numbers from `n` on. -/
def Distances.between (m m' : Machine) (first n : NodeId) : Distances where
  use id := if id < first then id else n + (id - first)
  plain := m.distance?
  padded id := m'.distance? (if id < first then id else n + (id - first))

theorem Distances.use_between_add (m m' : Machine) (first n i : NodeId) :
    (between m m' first n).use (first + i) = n + i := by
  show (if first + i < first then _ else n + (first + i - first)) = n + i
  rw [if_neg (Nat.not_lt.2 (Nat.le_add_right first i)), Nat.add_sub_cancel_left]

theorem Run.outOfFuel_iff {α β : Type} {D : Distances} {W : PadWorld}
    {R : PadWorld → α → β → Prop} {r : EStateM.Result Stop Machine α}
    {r' : EStateM.Result Stop Machine β} (h : SameEnd (Machine.padding D) R W r r') :
    (∃ m, r = .error .outOfFuel m) ↔ ∃ m', r' = .error .outOfFuel m' := by
  cases h with
  | ok _ _ _ => simp
  | @error _ e e' m m' _ he _ =>
    obtain rfl : e' = e := he
    simp
  | excused he => exact he.elim

/-- Both runs end in the same way, with values and machines that correspond, or none of them ends. -/
structure Run.SameRuns (D : Distances) (W : PadWorld) (x y : Nat → Run Flow) (m m' : Machine) :
    Prop where
  forth : ∀ r, Run.Ends x m r → ∃ r', Run.Ends y m' r' ∧
    SameEnd (Machine.padding D) (fun W => Flow.Moved D W.homes) W r r'
  back : ∀ r', Run.Ends y m' r' → ∃ r, Run.Ends x m r ∧
    SameEnd (Machine.padding D) (fun W => Flow.Moved D W.homes) W r r'

/-- The machine knows what the report notes of the uses of names with these numbers. -/
def Machine.Resolved (m : Machine) (r : Report) (first next : NodeId) : Prop :=
  ∀ id, first ≤ id → id < next → m.distance? id = r.depth? id

namespace ForLoop

open Run

variable {loop : ForLoop Unit} {scopes : Scopes} {m : Machine}

theorem tree_relabel (loop : ForLoop Unit) {D : Distances} {first n : NodeId}
    (h : ∀ i, D.use (first + i) = n + i) :
    (loop.tree.number.run n).1 = (loop.number.run first).1.tree.relabel D.code ∧
      ∃ k, (loop.number.run first).2 = first + k ∧ (loop.tree.number.run n).2 = n + k := by
  have hshifted := Stmt.number_relabel (σ := .same) (ρ := D.code) rfl loop.tree first n h
  rw [Stmt.relabel_same, loop.number_tree first] at hshifted
  exact hshifted

/-- The same names and words are misplaced in the form of the parser as in the loop, whatever the numbers of
the uses. -/
theorem tree_errors (h : loop.Shaped) (routine : Routine) (enclosing : Enclosing)
    (hs : scopes.Settled) (n first : NodeId) :
    (statement routine enclosing scopes (loop.tree.number.run n).1).2.errors =
      ((loop.number.run first).1.report routine enclosing scopes).errors := by
  let D : Distances := ⟨fun id => n + (id - first), fun _ => none, fun _ => none⟩
  have huse (i : Nat) : D.use (first + i) = n + i :=
    congrArg (n + ·) (Nat.add_sub_cancel_left ..)
  rw [(tree_relabel loop huse).1, statement_relabel, ← errors_tree routine enclosing
    (number_shaped h first) hs]
  exact List.map_id' _

theorem number_numbers (loop : ForLoop Unit) (first : NodeId) :
    Numbers first (loop.number.run first).2 (loop.number.run first).1.tree.occurrences := by
  have h := Stmt.number_numbers loop.tree first
  rw [loop.number_tree first] at h
  exact h

/-- The machine with the loop knows the distances of its uses of names. -/
theorem load_finds (routine : Routine) (enclosing : Enclosing) (l : Lexical)
    (h : ((loop.number.run m.nextUse).1.report routine enclosing l.scopes).errors = []) {q : Place}
    (hq : q ∈ (loop.number.run m.nextUse).1.places l) :
    (loop.load routine enclosing l.scopes m).2.distance? q.use.id = q.depth? := by
  have huses := (loop.number.run m.nextUse).1.uses_places l l
  rw [Stmt.uses_places] at huses
  obtain ⟨hnodup, hbounds⟩ := (loop.number_numbers m.nextUse).places huses
  exact Machine.distance?_noted m (notes routine enclosing _ l) h hnodup hq (hbounds q hq).1
    (hbounds q hq).2

/-- A machine that has resolved the form of the parser knows the distances of its uses of names. -/
theorem tree_finds (routine : Routine) (enclosing : Enclosing) (l : Lexical) {D : Distances}
    {first n : NodeId} (huse : ∀ i, D.use (first + i) = n + i)
    (h : (statement routine enclosing l.scopes (loop.number.run first).1.tree).2.errors = [])
    (hknows : m.Resolved (statement routine enclosing l.scopes (loop.tree.number.run n).1).2 n
      (loop.tree.number.run n).2) {q : Place}
    (hq : q ∈ (loop.number.run first).1.tree.places l) : m.distance? (D.use q.use.id) = q.depth? := by
  obtain ⟨htree, k, hnext, hnext'⟩ := tree_relabel loop huse
  have huses := (loop.number.run first).1.tree.uses_places l
  obtain ⟨hnodup, hbounds⟩ := (loop.number_numbers first).places huses
  rw [hnext] at hbounds
  have hnotes := Stmt.notes (loop.number.run first).1.tree routine enclosing l
  obtain ⟨i, hi⟩ := Nat.exists_eq_add_of_le (hbounds q hq).1
  have hlt : n + i < n + k :=
    Nat.add_lt_add_left (Nat.lt_of_add_lt_add_left (hi ▸ (hbounds q hq).2)) n
  -- Only one use of the loop has the number that this one has in the form of the parser.
  have hunique : ∀ note ∈ (statement routine enclosing l.scopes (loop.number.run first).1.tree).2.notes,
      D.code.use note.1 = D.code.use q.use.id → note.1 = q.use.id := by
    intro note hnote heq
    obtain ⟨p, hp, hid, -⟩ := (hnotes h note.1 note.2).1 hnote
    obtain ⟨j, hj⟩ := Nat.exists_eq_add_of_le (hbounds p hp).1
    rw [← hid, hj, hi] at heq ⊢
    change D.use (first + j) = D.use (first + i) at heq
    rw [huse, huse] at heq
    exact congrArg (first + ·) (Nat.add_left_cancel heq)
  rw [htree, statement_relabel, hnext'] at hknows
  rw [hi, huse, hknows (n + i) (Nat.le_add_right n i) hlt, ← huse i, ← hi,
    Report.depth?_relabel hunique, hnotes.depth?_place h hnodup hq]

/-- What the machine with the loop learns is about new uses of names. -/
theorem load_numbered (routine : Routine) (enclosing : Enclosing) (l : Lexical)
    (h : ((loop.number.run m.nextUse).1.report routine enclosing l.scopes).errors = []) :
    Loaded.Numbered m.nextUse ⟨[], (loop.number.run m.nextUse).2,
      (loop.number.run m.nextUse).1.report routine enclosing l.scopes⟩ := by
  have hnumbers := loop.number_numbers m.nextUse
  have huses := (loop.number.run m.nextUse).1.uses_places l l
  rw [Stmt.uses_places] at huses
  refine ⟨hnumbers.le, fun note hnote => ?_⟩
  obtain ⟨p, hp, hid, -⟩ := (notes routine enclosing _ l h note.1 note.2).1 hnote
  exact hid ▸ (hnumbers.places huses).2 p hp

/-- Both machines know the same of uses of names that were there before. -/
theorem between_fixes (routine : Routine) (enclosing : Enclosing) (l : Lexical)
    (h : ((loop.number.run m.nextUse).1.report routine enclosing l.scopes).errors = [])
    (n : NodeId) :
    (Distances.between (loop.load routine enclosing l.scopes m).2 m m.nextUse n).Fixes m.nextUse := by
  intro id hid
  have hold : (Distances.between (loop.load routine enclosing l.scopes m).2 m m.nextUse n).use id =
      id := if_pos hid
  exact ⟨hold, (congrArg m.distance? hold).trans
    (Machine.distance?_load_of_lt (load_numbered routine enclosing l h) hid).symm⟩

/-- Runs of the loop and of the form of the parser end in the same way. -/
theorem sameRuns {D : Distances} {W : PadWorld} {own : ForLoop NodeId} (hfits : own.Fits D)
    (hp : W.pad = .nowhere) (hextra : W.extra = none) {m m' : Machine} (hm : m.Moved D W m') :
    SameRuns D W own.run (fun fuel => execWith .none fuel (own.tree.relabel D.code)) m m' := by
  have hsame (fuel : Nat) := flat_moves hfits hp hextra fuel m m' hm
  constructor
  · intro r hr
    obtain ⟨⟨fuel, rfl⟩, hne⟩ := own.ends_flat_iff.2 hr
    refine ⟨_, ⟨⟨fuel + own.blockFuel, rfl⟩, fun n' hn' => ?_⟩, hsame fuel⟩
    obtain ⟨n, hn⟩ := (outOfFuel_iff (hsame fuel)).2 ⟨n', hn'⟩
    exact hne n hn
  · rintro r' ⟨⟨fuel', rfl⟩, hne⟩
    -- Without fuel for the block around the loop the run does not end.
    obtain ⟨fuel, rfl⟩ : ∃ fuel, fuel' = fuel + own.blockFuel := by
      cases fuel' with
      | zero => exact absurd rfl (hne m')
      | succ n =>
        unfold blockFuel
        split
        · exact ⟨n, rfl⟩
        · exact ⟨n + 1, rfl⟩
    refine ⟨_, own.ends_flat_iff.1 ⟨⟨fuel, rfl⟩, fun n hn => ?_⟩, hsame fuel⟩
    obtain ⟨n', hn'⟩ := (outOfFuel_iff (hsame fuel)).1 ⟨n, hn⟩
    exact hne n' hn'

/-- Without errors, the runs of the loop on a machine that has loaded it and of the form of the parser on a
machine that has resolved it end in the same way. -/
theorem sameRuns_of_load (h : loop.Shaped) (routine : Routine) (enclosing : Enclosing)
    (hs : scopes.Settled) (hm : m.Contained) (n : NodeId)
    (hnone : ((loop.number.run m.nextUse).1.report routine enclosing scopes).errors = [])
    (hknows : m.Resolved (statement routine enclosing scopes (loop.tree.number.run n).1).2 n
      (loop.tree.number.run n).2) :
    SameRuns (.between (loop.load routine enclosing scopes m).2 m m.nextUse n) m.selfWorld
      (loop.load routine enclosing scopes m).1.run
      (fun fuel => execWith .none fuel (loop.tree.number.run n).1)
      (loop.load routine enclosing scopes m).2 m := by
  -- The names in the scopes are all that matters of the places.
  obtain ⟨l, rfl⟩ : ∃ l : Lexical, l.scopes = scopes :=
    ⟨scopes.map fun names => ⟨.block [], names⟩, (List.map_map ..).trans (List.map_id' scopes)⟩
  have htree := (errors_tree routine enclosing (number_shaped h m.nextUse) hs).trans hnone
  have huse := Distances.use_between_add (loop.load routine enclosing l.scopes m).2 m m.nextUse n
  have hfinds : (Distances.between (loop.load routine enclosing l.scopes m).2 m m.nextUse n).Finds
      ((loop.number.run m.nextUse).1.places l) ((loop.number.run m.nextUse).1.tree.places l) :=
    ⟨fun _ => load_finds routine enclosing l hnone,
      fun _ => tree_finds routine enclosing l huse htree hknows⟩
  rw [(tree_relabel loop huse).1]
  exact sameRuns (fits (number_shaped h m.nextUse) hs hfinds) rfl rfl
    (hm.moved (between_fixes routine enclosing l hnone n) _ (fun _ => rfl) fun _ => rfl)

/-- The form of the parser means the loop: the walk that resolves names finds the same errors, and without
errors the runs of both end in the same way, wherever the form of the parser stands in the code of a
machine that knows its distances. -/
theorem desugared_means_loop {clauses : Grammar.ForClauses} {body : Stmt Unit}
    (h : (ofClauses clauses body).Shaped) (routine : Routine) (enclosing : Enclosing)
    (hs : scopes.Settled) (hm : m.Contained) {n next : NodeId} {tree : Stmt NodeId}
    (htree : (clauses.loop body).number.run n = (tree, next)) {own : ForLoop NodeId} {m₀ : Machine}
    (hload : (ofClauses clauses body).load routine enclosing scopes m = (own, m₀)) :
    (statement routine enclosing scopes tree).2.errors =
        (own.report routine enclosing scopes).errors ∧
      ((statement routine enclosing scopes tree).2.errors = [] →
        m.Resolved (statement routine enclosing scopes tree).2 n next →
          SameRuns (.between m₀ m m.nextUse n) m.selfWorld own.run
            (fun fuel => execWith .none fuel tree) m₀ m) := by
  rw [← tree_ofClauses] at htree
  generalize ofClauses clauses body = loop at h htree hload
  obtain rfl : (loop.number.run m.nextUse).1 = own := congrArg Prod.fst hload
  obtain rfl : (loop.load routine enclosing scopes m).2 = m₀ := congrArg Prod.snd hload
  obtain rfl : (loop.tree.number.run n).1 = tree := congrArg Prod.fst htree
  obtain rfl : (loop.tree.number.run n).2 = next := congrArg Prod.snd htree
  have herrors := tree_errors h routine enclosing hs n m.nextUse
  exact ⟨herrors, fun hnone hknows =>
    sameRuns_of_load h routine enclosing hs hm n (herrors ▸ hnone) hknows⟩

/-- The clauses of `for (var go = true; go; go = false) print "once";`. -/
def onceClauses : Grammar.ForClauses where
  initializer := some (.var ⟨⟨"go", 1⟩, none, some (.literal (.boolean true))⟩)
  condition := some (.variable () ⟨"go", 1⟩)
  increment := some (.assign () ⟨"go", 1⟩ (.literal (.boolean false)))

/-- The loop with these clauses. -/
def once : ForLoop Unit :=
  ofClauses onceClauses (.print (.literal (.string "once")))

theorem once_shaped : once.Shaped := by
  have hgo : (⟨"go", 1⟩ : Name).Free := by
    unfold Name.Free
    decide
  refine ⟨fun first hfirst => ?_, hgo, ⟨hgo, trivial⟩, trivial, rfl⟩
  cases hfirst
  exact ⟨⟨hgo, trivial⟩, rfl⟩

/-- The form of the parser for this loop, numbered from 0 on. -/
def onceTree : Stmt NodeId :=
  ((onceClauses.loop (.print (.literal (.string "once")))).number.run 0).1

/-- A machine that has resolved it. -/
def onceMachine : Machine :=
  (Machine.new (.ok 0) .unlimited).load ⟨[], 2, (statement .none .none [] onceTree).2⟩

/-- Both runs of this loop end, after one round. -/
theorem desugared_means_loop_once :
    (statement .none .none [] onceTree).2.errors = [] ∧
      SameRuns (.between (once.load .none .none [] onceMachine).2 onceMachine 2 0)
        onceMachine.selfWorld (once.load .none .none [] onceMachine).1.run
        (fun fuel => execWith .none fuel onceTree) (once.load .none .none [] onceMachine).2
        onceMachine ∧
      ∃ m, Ends (fun fuel => execWith .none fuel onceTree) onceMachine (.ok .normal m) ∧
        m.sink.written = "once\n".toUTF8 := by
  have hcontained : onceMachine.Contained := by
    refine (Machine.new_contained (.ok 0) .unlimited).load ⟨by decide, ?_⟩
    decide
  have hmeans := desugared_means_loop once_shaped .none .none .nil hcontained (n := 0) rfl rfl
  have herrors : (statement .none .none [] onceTree).2.errors = [] := by decide
  have hknows : ∀ id < 2, onceMachine.distance? id =
      (statement .none .none [] onceTree).2.depth? id := by decide
  exact ⟨herrors, hmeans.2 herrors fun id _ hid => hknows id hid, _, ⟨⟨6, rfl⟩, nofun⟩, rfl⟩

end ForLoop

/-! ## Loops of loaded programs -/

/-- A machine of a session knows what the walk notes of the code of loaded programs. -/
theorem FrameWorld.Describes.resolved {W : FrameWorld} {m : Machine} (hm : W.Describes m)
    {l : Lexical} {s : Stmt NodeId} {first next : NodeId} (hnumbers : Numbers first next s.occurrences)
    (hcovers : W.Covers (s.places l)) {routine : Routine} {enclosing : Enclosing}
    (h : (statement routine enclosing l.scopes s).2.errors = []) :
    m.Resolved (statement routine enclosing l.scopes s).2 first next := by
  intro id hlo hhi
  have hid : id ∈ s.occurrences.map (·.id) := by
    rw [hnumbers.ids, List.mem_range'_1, Nat.add_sub_cancel' hnumbers.le]
    exact ⟨hlo, hhi⟩
  rw [← Stmt.uses_places s l, List.map_map] at hid
  obtain ⟨q, hq, rfl⟩ := List.mem_map.1 hid
  have hnodup := (hnumbers.places (s.uses_places l)).1
  exact (hm.places q (hcovers q hq)).trans
    ((Stmt.notes s routine enclosing l).depth?_place h hnodup hq).symm

/-- The form of the parser in a program that a session has loaded runs like the loop, whenever a run of the
session comes to it. -/
theorem ForLoop.sameRuns_of_known {loop : ForLoop Unit} (h : loop.Shaped) {W : FrameWorld}
    {m : Machine} (hm : W.Describes m) {l : Lexical} (hl : W.Synced m.current l)
    (hs : l.scopes.Settled) {n : NodeId}
    (hcovers : W.Covers ((loop.tree.number.run n).1.places l)) {routine : Routine}
    {enclosing : Enclosing}
    (hnone : (statement routine enclosing l.scopes (loop.tree.number.run n).1).2.errors = []) :
    Run.SameRuns (.between (loop.load routine enclosing l.scopes m).2 m m.nextUse n) m.selfWorld
      (loop.load routine enclosing l.scopes m).1.run
      (fun fuel => Run.execWith .none fuel (loop.tree.number.run n).1)
      (loop.load routine enclosing l.scopes m).2 m :=
  sameRuns_of_load h routine enclosing hs (hm.contained hl.lt) n
    (tree_errors h routine enclosing hs n m.nextUse ▸ hnone)
    (hm.resolved (Stmt.number_numbers loop.tree n) hcovers hnone)

end ClassScript
