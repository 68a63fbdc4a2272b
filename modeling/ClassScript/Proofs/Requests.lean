import ClassScript.Proofs.Places
import ClassScript.Proofs.Safety

/-!
# What is asked of a session

A session serves requests in any order: runs, each with the clock that the host shows, and checks.
`Session.EveryEvent` says that all events of the runs have a property: no watch that lets the events
with this property pass makes a difference, whatever it does at other events.
-/

set_option autoImplicit false

namespace ClassScript

/-- What may be asked of a session. -/
inductive Request where
  | run (clock : Clock) (fuel : Nat) (source : String)
  | check (source : String)

namespace Session

/-- The session with what the clock of the host shows. -/
def setClock (s : Session) (clock : Clock) : Session :=
  { s with machine := s.machine.setClock clock }

/-- The answer to a request under a watch, and the session after it. -/
def serve (watch : Watch) (s : Session) : Request → Except (List Failure) Unit × Session
  | .run clock fuel source => (s.setClock clock).runWith watch fuel source
  | .check source => (s.check source, s.inspect true source)

/-- The answers to requests, one after the other, and the session after them. -/
def replay (watch : Watch) (s : Session) :
    List Request → List (Except (List Failure) Unit) × Session
  | [] => ([], s)
  | r :: rest =>
    let (answer, s) := s.serve watch r
    let (answers, s) := s.replay watch rest
    (answer :: answers, s)

theorem replay_append (watch : Watch) (s : Session) (earlier later : List Request) :
    (s.replay watch (earlier ++ later)).2 =
      ((s.replay watch earlier).2.replay watch later).2 := by
  induction earlier generalizing s with
  | nil => rfl
  | cons r rest ih => exact ih _

/-- The program that a request runs, if it runs one. -/
def ran? (s : Session) : Request → Option Loaded
  | .run clock _ source =>
    match (s.setClock clock).prepare s.typeCheck source with
    | .ok (l, _) => some l
    | .error _ => none
  | .check _ => none

/-- The programs that requests run. -/
def ran (s : Session) : List Request → List Loaded
  | [] => []
  | r :: rest => (s.ran? r).toList ++ (s.serve .none r).2.ran rest

/-- What a run is answered whose source is prepared, and what is left. -/
theorem runWith_prepared {s : Session} {source : String} {l : Loaded} {c : Checker}
    (hp : s.prepare s.typeCheck source = .ok (l, c)) (watch : Watch) (fuel : Nat) :
    s.runWith watch fuel source =
      match (s.machine.load l).interpretWith watch fuel l.program with
      | (.ok _, machine) => (.ok (), { s with checker := c, machine })
      | (.error e, machine) =>
        (.error [.stop e],
          { s with
            checker := c.restore s.checker.globals
            machine := machine.restoreGlobals s.machine.globals }) := by
  unfold runWith
  generalize s.prepare s.typeCheck source = prepared at hp
  subst hp
  rfl

/-- Whether a source passes all checks and its program has a property. -/
def preparesWith (s : Session) (source : String) (property : Loaded → Bool) : Bool :=
  match s.prepare true source with
  | .ok (l, _) => property l
  | .error _ => false

theorem preparesWith_iff {s : Session} {source : String} {property : Loaded → Bool} :
    s.preparesWith source property = true ↔
      ∃ l c, s.prepare true source = .ok (l, c) ∧ property l = true := by
  unfold preparesWith
  split
  next l c hp =>
    rw [hp]
    constructor
    · exact fun h => ⟨l, c, rfl, h⟩
    · rintro ⟨_, _, he, h⟩
      cases he
      exact h
  next hp =>
    rw [hp]
    constructor
    · intro h
      cases h
    · rintro ⟨_, _, he, -⟩
      cases he

/-- All events of the runs have a property: a watch that lets the events with this property pass makes no
difference, although it may stop the run or change the machine at any other event. -/
def EveryEvent (s : Session) (requests : List Request) (P : Machine → Event → Prop) : Prop :=
  ∀ watch : Watch, (∀ m e, P m e → watch e m = .ok () m) →
    s.replay watch requests = s.replay .none requests

/-- A source that is prepared was loaded. -/
theorem load_of_prepare {s : Session} {typeCheck : Bool} {source : String} {l : Loaded}
    {c : Checker} (h : s.prepare typeCheck source = .ok (l, c)) :
    s.load source = .ok l ∧ s.checkTypes typeCheck l.program = .ok c := by
  unfold prepare at h
  cases hl : s.load source with
  | error e => rw [hl] at h; cases h
  | ok l' =>
    rw [hl] at h
    replace h : (s.checkTypes typeCheck l'.program >>= fun c' => pure (l', c')) = .ok (l, c) := h
    cases hc : s.checkTypes typeCheck l'.program with
    | error e => rw [hc] at h; cases h
    | ok c' =>
      rw [hc] at h
      cases h
      exact ⟨rfl, hc⟩

end Session

end ClassScript
