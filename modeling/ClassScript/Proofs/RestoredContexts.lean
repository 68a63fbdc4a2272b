import ClassScript.Proofs.CheckerWalk
import ClassScript.Proofs.LaterMachines

/-!
# Both walkers go back to where they were

The evaluator runs a program in a frame, and the checker walks it in a frame and with a type of
results. Expressions, statements and calls enter other frames, at any depth, and whether they end, end
with a `return` or fail there, the walker is back in its frame afterwards (`walkers_restored`). The
evaluator does so because the operation that runs a part in another frame does and no other one moves
(`Run.unwinds_rules`); the checker by `TypeChecker.checkStmt_mirrors`.
-/

set_option autoImplicit false

namespace ClassScript

namespace Machine

variable {m n : Machine}

/-- The machine is back: in the frame of before, and all frames that were there have the frames of
before around them. -/
structure Restored (m n : Machine) : Prop where
  current : n.current = m.current
  chain : ∀ g < m.frames.nextId, n.frames.chain g = m.frames.chain g

/-- An operation adds frames only. -/
theorem Step.frames_nextId (h : Step m n) : m.frames.nextId ≤ n.frames.nextId := by
  cases h with
  | frame outer vars => simp
  | bind f x v => simp
  | restore vars => simp [restoreGlobals, Frames.restore]
  | _ => exact Nat.le_refl _

/-- An operation leaves the frames around a frame as they are. -/
theorem Step.chain (h : Step m n) {g : FrameId} (hg : g < m.frames.nextId) :
    n.frames.chain g = m.frames.chain g := by
  cases h with
  | frame outer vars => exact Frames.chain_addChild_of_lt _ _ _ hg
  | bind f x v => exact Frames.chain_define _ _ _ _ _
  | restore vars => exact Frames.chain_update _ _ _ _
  | _ => rfl

theorem Later.frames_nextId (h : m.Later n) : m.frames.nextId ≤ n.frames.nextId := by
  induction h with
  | refl => exact Nat.le_refl _
  | tail _ hs ih => exact Nat.le_trans ih hs.frames_nextId

theorem Later.chain (h : m.Later n) {g : FrameId} (hg : g < m.frames.nextId) :
    n.frames.chain g = m.frames.chain g := by
  induction h with
  | refl => rfl
  | tail hl hs ih => exact (hs.chain (Nat.lt_of_lt_of_le hg (Later.frames_nextId hl))).trans ih

end Machine

namespace Run

/-- A part of a run that only operates on the machine, and ends in the frame in which it began. -/
theorem restored {α : Type} {x : Watch → Run α} (hu : Unwinds x)
    (hk : ∀ m : Machine, Keeps m.Later x) (m : Machine) : m.Restored (last (x .none m)) :=
  ⟨hu m, fun _ hg => (hk m m (.refl m)).last.chain hg⟩

variable (fuel : Nat) (m : Machine)

theorem eval_restored (e : Expr NodeId) : m.Restored (last (eval fuel e m)) :=
  restored ((unwinds_rules.run fuel).1 e)
    (fun m => ((keeps_rules (Machine.stable_later m)).run fuel).1 e) m

theorem exec_restored (s : Stmt NodeId) : m.Restored (last (exec fuel s m)) :=
  restored ((unwinds_rules.run fuel).2 s)
    (fun m => ((keeps_rules (Machine.stable_later m)).run fuel).2 s) m

theorem call_restored (line : Nat) (f : Value) (args : List Value) :
    m.Restored (last (call .none (eval fuel) (exec fuel) line f args m)) :=
  restored (x := fun w => call w (evalWith w fuel) (execWith w fuel) line f args)
    (unwinds_rules.call (unwinds_rules.run fuel).1 (unwinds_rules.run fuel).2 line f args)
    (fun m =>
      have h := keeps_rules (Machine.stable_later m)
      h.call (h.run fuel).1 (h.run fuel).2 line f args) m

end Run

/-- For every expression, statement and call, from every state and with every outcome, the evaluator
ends in the frame in which it began, with the same frames around it. For every statement and
expression, from every state and with every outcome, the checker ends in the frame in which it began,
with the same frames around it and the same type of results, and the names of the other frames that
were there are unchanged. -/
theorem walkers_restored {ι : Type} :
    (∀ (fuel : Nat) (m : Machine),
      (∀ e, m.Restored (Run.last (Run.eval fuel e m))) ∧
      (∀ s, m.Restored (Run.last (Run.exec fuel s m))) ∧
      ∀ line f args,
        m.Restored (Run.last (Run.call .none (Run.eval fuel) (Run.exec fuel) line f args m))) ∧
    ∀ c : TypeChecker,
      (∀ s : Stmt ι, c.Restored (TypeChecker.after (TypeChecker.checkStmt s) c)) ∧
      ∀ e : Expr ι, TypeChecker.after (TypeChecker.typeOf e) c = c := by
  refine ⟨fun fuel m => ?_, fun c => ⟨fun s => (TypeChecker.checkStmt_mirrors s c).1, fun e => ?_⟩⟩
  · exact ⟨Run.eval_restored fuel m, Run.exec_restored fuel m, Run.call_restored fuel m⟩
  · rw [TypeChecker.typeOf_eq]
    exact TypeChecker.after_ask _ c

end ClassScript
