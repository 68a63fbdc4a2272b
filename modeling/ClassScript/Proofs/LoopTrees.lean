import ClassScript.Proofs.ForLoops
import ClassScript.Proofs.MoreFuel
import ClassScript.Proofs.RelabeledPrograms

/-!
# Resolving the form of the parser for a loop

The walk that resolves names finds in the form of the parser what it finds in the loop: the same errors
(`ForLoop.errors_tree`), and the same distances but for the uses of names in a round, which may stand in one
more block. So the code of the loop fits two machines, one of which knows the distances in the loop and
the other one those in the form of the parser (`ForLoop.fits`).
-/

set_option autoImplicit false

namespace ClassScript

open Resolution

namespace ForLoop

variable {loop : ForLoop NodeId} {scopes : Scopes}

/-! ## Errors -/

/-- Inside the loop, too, the innermost scope binds names that have values. -/
theorem entry_settled (routine : Routine) (enclosing : Enclosing) (h : loop.Shaped)
    (hs : scopes.Settled) : Scopes.Settled (loop.entry routine enclosing scopes).1 := by
  unfold entry
  cases hfirst : loop.initializer with
  | none => exact hs
  | some first =>
    exact (Scopes.Settled.block scopes).statement routine enclosing first
      (h.initializer first hfirst).1

/-- The body of the `while` loop: the body of the loop and the increment, if there is one, in a block. -/
def roundTree {ι : Type} (loop : ForLoop ι) : Stmt ι :=
  match loop.increment with
  | none => loop.body
  | some e => .block [loop.body, .expression e]

theorem tree_eq {ι : Type} (loop : ForLoop ι) :
    loop.tree =
      match loop.initializer with
      | none => .whileLoop (loop.condition.getD (.literal (.boolean true))) loop.roundTree
      | some first =>
        .block [first, .whileLoop (loop.condition.getD (.literal (.boolean true))) loop.roundTree] :=
  rfl

theorem errors_condition (enclosing : Enclosing) (loop : ForLoop NodeId) (scopes : Scopes) :
    (expression enclosing scopes (loop.condition.getD (.literal (.boolean true)))).errors =
      (expressionOption enclosing scopes loop.condition).errors := by
  cases loop.condition <;> rfl

/-- The block around a round is no place for errors. -/
theorem errors_round (routine : Routine) (enclosing : Enclosing) (h : loop.Shaped)
    (hs : scopes.Settled) :
    (statement routine enclosing scopes loop.roundTree).2.errors =
      (statement routine enclosing scopes loop.body).2.errors ++
        (expressionOption enclosing scopes loop.increment).errors := by
  unfold roundTree
  obtain ⟨hbody, hbranch⟩ := h.body
  cases loop.increment with
  | none => exact (List.append_nil _).symm
  | some e =>
    have hinside : Bindings.empty :: scopes = Scopes.pad (.behind 0) scopes := rfl
    simp only [statement, statements, errors_append, hinside,
      scopes_of_isBranch routine enclosing _ loop.body hbody hbranch,
      branch_pad routine enclosing (.behind 0) hs.initialized loop.body hbody hbranch,
      expression_pad enclosing (.inr hs.initialized) e]
    exact congrArg (_ ++ ·) (List.append_nil _)

/-- The same names and words are misplaced in the form of the parser as in the loop. -/
theorem errors_tree (routine : Routine) (enclosing : Enclosing) (h : loop.Shaped)
    (hs : scopes.Settled) :
    (statement routine enclosing scopes loop.tree).2.errors =
      (loop.report routine enclosing scopes).errors := by
  have hinside := entry_settled routine enclosing h hs
  have hrounds (inside : Scopes) (hin : inside.Settled) :=
    congrArg₂ (· ++ ·) (errors_condition enclosing loop inside) (errors_round routine enclosing h hin)
  unfold entry at hinside
  rw [tree_eq, report, entry]
  cases hfirst : loop.initializer with
  | none =>
    rw [hfirst] at hinside
    simp only [errors_append, List.append_assoc]
    exact hrounds scopes hinside
  | some first =>
    rw [hfirst] at hinside
    simp only [errors_append, List.append_assoc, statement, statements]
    refine congrArg (_ ++ ·) ?_
    exact (List.append_assoc ..).symm.trans ((List.append_nil _).trans (hrounds _ hinside))

/-! ## Places -/

/-- The scopes inside the loop. -/
def inside (loop : ForLoop NodeId) (l : Lexical) : Lexical :=
  match loop.initializer with
  | none => l
  | some first => first.scopesAfter (l.inBlock [])

/-- The places in the first clause. -/
def firstPlaces (loop : ForLoop NodeId) (l : Lexical) : List Place :=
  match loop.initializer with
  | none => []
  | some first => first.places (l.inBlock [])

/-- The places in the loop. -/
def places (loop : ForLoop NodeId) (l : Lexical) : List Place :=
  loop.firstPlaces l ++ placesAt (loop.inside l) (Expr.occurrencesOption loop.condition) ++
    loop.body.places (loop.inside l) ++
    placesAt (loop.inside l) (Expr.occurrencesOption loop.increment)

/-- What the walk notes in a loop are the depths of its places. -/
theorem notes (routine : Routine) (enclosing : Enclosing) (loop : ForLoop NodeId) (l : Lexical) :
    (loop.report routine enclosing l.scopes).Notes (loop.places l) := by
  have hentry : (loop.entry routine enclosing l.scopes).1 = (loop.inside l).scopes ∧
      (loop.entry routine enclosing l.scopes).2.Notes (loop.firstPlaces l) := by
    unfold entry inside firstPlaces
    cases loop.initializer with
    | none => exact ⟨rfl, .empty⟩
    | some first =>
      exact ⟨(first.scopes_scopesAfter routine enclosing (l.inBlock [])).symm,
        first.notes routine enclosing (l.inBlock [])⟩
  unfold report
  dsimp only
  rw [hentry.1]
  exact ((hentry.2.append (Expr.notesOption enclosing _ loop.condition)).append
    (loop.body.notes routine enclosing _)).append (Expr.notesOption enclosing _ loop.increment)

/-- The places of a loop are its uses of names. -/
theorem uses_places (loop : ForLoop NodeId) (l l' : Lexical) :
    (loop.places l).map (·.use) = (loop.tree.places l').map (·.use) := by
  rw [Stmt.uses_places]
  obtain ⟨initializer, condition, increment, body⟩ := loop
  unfold places firstPlaces
  simp only [List.map_append, uses_placesAt, Stmt.uses_places]
  cases initializer <;> cases condition <;> cases increment <;>
    simp [tree, Stmt.occurrences, Stmt.occurrencesAll, Expr.occurrences, Expr.occurrencesOption,
      Stmt.uses_places]

/-! ## Code that fits -/

variable {D : Distances} {l l' : Lexical}

/-- The distances of the uses in the loop lead as far, those in a round behind one more frame if there is a
block around it. -/
structure Fits (D : Distances) (loop : ForLoop NodeId) : Prop where
  initializer : ∀ first ∈ loop.initializer, first.Fits D .nowhere
  condition : D.MovesAll .nowhere (Expr.occurrencesOption loop.condition)
  body : loop.increment = none → loop.body.Fits D .nowhere
  round : ∀ e ∈ loop.increment,
    loop.body.Fits D (.behind 0) ∧ D.MovesAll (.behind 0) e.occurrences

/-- The rounds fit, in scopes with the same names. -/
theorem rounds_fit (h : loop.Shaped) (hs : l.scopes.Settled) (hl : l'.scopes = l.scopes)
    (hfinds : D.Finds
      (placesAt l (Expr.occurrencesOption loop.condition) ++ loop.body.places l ++
        placesAt l (Expr.occurrencesOption loop.increment))
      (placesAt l' (Expr.occurrencesOption loop.condition) ++ loop.roundTree.places l')) :
    D.MovesAll .nowhere (Expr.occurrencesOption loop.condition) ∧
      (loop.increment = none → loop.body.Fits D .nowhere) ∧
      ∀ e ∈ loop.increment,
        loop.body.Fits D (.behind 0) ∧ D.MovesAll (.behind 0) e.occurrences := by
  have hsame := Lexical.WithExtra.of_scopes hl
  obtain ⟨hbody, hbranch⟩ := h.body
  refine ⟨?_, fun hincrement => ?_, fun e he => ?_⟩
  · rw [List.append_assoc] at hfinds
    exact hfinds.left.moves hsame (Expr.spelledOption h.condition)
  · rw [roundTree, hincrement] at hfinds
    refine Stmt.branch_fits hsame loop.body hbody hbranch (hfinds.of_mem ?_ ?_) <;>
      simp +contextual
  · have hincrement : loop.increment = some e := he
    have hextra := Lexical.WithExtra.ofBlock hl hs [loop.body, .expression e]
    have hspelled := Expr.spelledOption h.increment
    rw [roundTree, hincrement] at hfinds
    rw [hincrement] at hspelled
    simp only [Stmt.places, Stmt.placesAll, Stmt.scopesAfter_of_isBranch _ loop.body hbody hbranch,
      List.append_nil, Expr.occurrencesOption] at hfinds
    constructor
    · refine Stmt.branch_fits hextra loop.body hbody hbranch (hfinds.of_mem ?_ ?_) <;>
        simp +contextual
    · refine Distances.Finds.moves hextra hspelled (hfinds.of_mem ?_ ?_) <;>
        simp +contextual

theorem tree_places_condition (loop : ForLoop NodeId) (l : Lexical) :
    placesAt l (loop.condition.getD (.literal (.boolean true))).occurrences =
      placesAt l (Expr.occurrencesOption loop.condition) := by
  cases loop.condition <;> rfl

/-- The code of a loop fits machines that know the distances in the loop and in the form of the parser. -/
theorem fits (h : loop.Shaped) (hs : l.scopes.Settled)
    (hfinds : D.Finds (loop.places l) (loop.tree.places l)) : loop.Fits D := by
  have hinside := entry_settled .none .none h hs
  rw [tree_eq] at hfinds
  unfold entry at hinside
  unfold places firstPlaces inside at hfinds
  cases hfirst : loop.initializer with
  | none =>
    rw [hfirst] at hfinds hinside
    simp only [Stmt.places, tree_places_condition, List.nil_append] at hfinds
    obtain ⟨hc, hb, hr⟩ := rounds_fit h hinside rfl hfinds
    refine ⟨fun first hf => ?_, hc, hb, hr⟩
    rw [hfirst] at hf
    cases hf
  | some first =>
    rw [hfirst] at hfinds hinside
    simp only [Stmt.places, Stmt.placesAll, tree_places_condition, List.append_nil,
      List.append_assoc] at hfinds
    have hblock : (l.inBlock [first, .whileLoop (loop.condition.getD (.literal (.boolean true)))
        loop.roundTree]).scopes = (l.inBlock []).scopes := rfl
    have hpad : (Pad.nowhere : Pad) ≠ .behind 0 := fun h => by cases h
    have hafter := (Lexical.WithExtra.of_scopes hblock).scopesAfter hpad first
    have hsettled : (first.scopesAfter (l.inBlock [])).scopes.Settled := by
      rw [first.scopes_scopesAfter .none .none]
      exact hinside
    have hrounds := hfinds.right
    rw [← List.append_assoc] at hrounds
    obtain ⟨hc, hb, hr⟩ := rounds_fit h hsettled hafter.scopes hrounds
    refine ⟨fun s hf => ?_, hc, hb, hr⟩
    rw [hfirst] at hf
    cases hf
    exact Stmt.fits_of_places first hpad (Lexical.WithExtra.of_scopes hblock)
      (h.initializer first hfirst).1 hfinds.left

end ForLoop

end ClassScript
