import ClassScript.Proofs.Safety
import ClassScript.Typing.Checker

/-!
# What a body returns

The `return` statements of a body are those that stand in it outside of nested functions and
classes. Statements that do not fail either fall off their end or end at one of these `return`
statements, with its value and as the last thing that happens; and they do not fall off their end if
one of them returns on every path (`Run.execWith_leaves`). So a call whose body always returns gets
its value from a `return` statement (`Run.invoke_returned`).
-/

set_option autoImplicit false

namespace ClassScript

variable {ι : Type}

/-! ## `return` statements -/

mutual

/-- What the `return` statements of a statement give back, but for those in nested functions and
classes. -/
def Stmt.returns : Stmt ι → List (Option (Expr ι))
  | .returnWith _ value => [value]
  | .block body => Stmt.returnsAll body
  | .ifThen _ thenBranch => thenBranch.returns
  | .ifElse _ thenBranch elseBranch => thenBranch.returns ++ elseBranch.returns
  | .whileLoop _ body => body.returns
  | _ => []
termination_by structural s => s

/-- What the `return` statements among statements give back. -/
def Stmt.returnsAll : List (Stmt ι) → List (Option (Expr ι))
  | [] => []
  | s :: rest => s.returns ++ Stmt.returnsAll rest
termination_by structural ss => ss

end

namespace Run

open Typing

/-! ## How statements end -/

/-- The value comes of one of the `return` statements: it has been computed in some state, `nil` if
nothing is given back, and nothing has happened since. -/
inductive Returned (watch : Watch) (values : List (Option (Expr NodeId))) (v : Value)
    (n : Machine) : Prop
  | at {value : Option (Expr NodeId)} {fuel : Nat} {before after : Machine} :
      value ∈ values → evalOption (evalWith watch fuel) value before = .ok v after →
      n = { after with current := n.current } → Returned watch values v n

theorem Returned.mono {watch : Watch} {values values' : List (Option (Expr NodeId))} {v : Value}
    {n : Machine} (h : Returned watch values v n) (hsub : values ⊆ values') :
    Returned watch values' v n := by
  obtain ⟨hmem, hv, hn⟩ := h
  exact ⟨hsub hmem, hv, hn⟩

theorem Returned.enter {watch : Watch} {values : List (Option (Expr NodeId))} {v : Value}
    {n : Machine} (h : Returned watch values v n) (frame : FrameId) :
    Returned watch values v { n with current := frame } := by
  obtain ⟨hmem, hv, hn⟩ := h
  refine ⟨hmem, hv, ?_⟩
  rw [hn]

/-- How statements end that do not fail: normally, unless one of them always returns, or at one of
their `return` statements. -/
inductive Leaves (watch : Watch) (values : List (Option (Expr NodeId))) (always : Bool) :
    EStateM.Result Stop Machine Flow → Prop
  | normal {n : Machine} : always = false → Leaves watch values always (.ok .normal n)
  | returned {v : Value} {n : Machine} :
      Returned watch values v n → Leaves watch values always (.ok (.returned v) n)
  | error {e : Stop} {n : Machine} : Leaves watch values always (.error e n)

namespace Leaves

variable {watch : Watch} {values values' : List (Option (Expr NodeId))} {always always' : Bool}
  {r : EStateM.Result Stop Machine Flow}

theorem mono (h : Leaves watch values always r) (hsub : values ⊆ values')
    (halways : always = false → always' = false) : Leaves watch values' always' r := by
  cases h with
  | normal hf => exact .normal (halways hf)
  | returned hv => exact .returned (hv.mono hsub)
  | error => exact .error

/-- What always returns does not fall off its end. -/
theorem of_ok {flow : Flow} {n : Machine} (h : Leaves watch values true (.ok flow n)) :
    ∃ v, flow = .returned v ∧ Returned watch values v n := by
  cases h with
  | normal hf => cases hf
  | returned hv => exact ⟨_, rfl, hv⟩

/-- What has no `return` statement falls off its end. -/
theorem of_nil {flow : Flow} {n : Machine} (h : Leaves watch [] always (.ok flow n)) :
    flow = .normal := by
  cases h with
  | normal hf => rfl
  | returned hv =>
    obtain ⟨hmem, -, -⟩ := hv
    cases hmem

theorem inFrame {x : Run Flow} {frame : FrameId} {m : Machine}
    (h : Leaves watch values always (x { m with current := frame })) :
    Leaves watch values always (Run.inFrame frame x m) := by
  unfold Run.inFrame
  generalize x { m with current := frame } = r at h
  cases h with
  | normal hf => exact .normal hf
  | returned hv => exact .returned (hv.enter m.current)
  | error => exact .error

/-- What comes before decides nothing. -/
theorem bind {α : Type} {x : Run α} {f : α → Run Flow} {m : Machine}
    (h : ∀ a k, Leaves watch values always (f a k)) :
    Leaves watch values always ((x >>= f) m) := by
  rw [bind_apply]
  cases x m with
  | ok a k => exact h a k
  | error e k => exact .error

theorem choice {condition : Prop} [Decidable condition] {x y : Run Flow} {m : Machine}
    (hx : Leaves watch values always (x m)) (hy : Leaves watch values always (y m)) :
    Leaves watch values always ((if condition then x else y) m) := by
  split
  · exact hx
  · exact hy

/-- After something that returns, nothing else happens. -/
theorem andThen {x y : Run Flow} {first second : Bool} {m : Machine}
    (hx : Leaves watch values first (x m)) (hy : ∀ k, Leaves watch values' second (y k)) :
    Leaves watch (values ++ values') (first || second) ((do
      match ← x with
      | .normal => y
      | .returned v => return .returned v) m) := by
  rw [bind_apply]
  generalize x m = r at hx
  cases hx with
  | normal hf => exact (hy _).mono (List.subset_append_right ..) (by simp [hf])
  | returned hv => exact .returned (hv.mono (List.subset_append_left ..))
  | error => exact .error

end Leaves

section

variable {watch : Watch} {exec : ExecFn}
  (hexec : ∀ s m, Leaves watch s.returns (alwaysReturns s) (exec s m))

include hexec

theorem execAll_leaves (body : List (Stmt NodeId)) (m : Machine) :
    Leaves watch (Stmt.returnsAll body) (someReturns body) (execAll exec body m) := by
  induction body generalizing m with
  | nil => exact .normal rfl
  | cons s rest ih => exact (hexec s m).andThen ih

theorem execBlock_leaves (body : List (Stmt NodeId)) (m : Machine) :
    Leaves watch (Stmt.returnsAll body) (someReturns body) (execBlock watch exec body m) := by
  unfold execBlock
  exact .bind fun before _ => .bind fun frame _ => (execAll_leaves hexec body _).inFrame

end

/-- A statement falls off its end or ends at one of its `return` statements. -/
theorem execWith_leaves (watch : Watch) (fuel : Nat) (s : Stmt NodeId) (m : Machine) :
    Leaves watch s.returns (alwaysReturns s) (execWith watch fuel s m) := by
  induction fuel generalizing s m with
  | zero => exact .error
  | succ fuel ih =>
    unfold execWith
    refine .bind fun _ m => ?_
    cases s with
    | expression value => exact .bind fun _ _ => .normal rfl
    | print value => exact .bind fun _ _ => .bind fun _ _ => .normal rfl
    | «var» decl => exact .bind fun _ _ => .bind fun _ _ => .normal rfl
    | block body => exact execBlock_leaves ih body m
    | ifThen condition thenBranch =>
      refine .bind fun v k => .choice ?_ (.normal rfl)
      exact (ih thenBranch k).mono (List.Subset.refl _) fun _ => rfl
    | ifElse condition thenBranch elseBranch =>
      have hboth (h : alwaysReturns thenBranch = false ∨ alwaysReturns elseBranch = false) :
          alwaysReturns (.ifElse condition thenBranch elseBranch) = false := by
        rw [alwaysReturns, Bool.and_eq_false_iff]
        exact h
      refine .bind fun v k => .choice ?_ ?_
      · exact (ih thenBranch k).mono (List.subset_append_left ..) fun h => hboth (.inl h)
      · exact (ih elseBranch k).mono (List.subset_append_right ..) fun h => hboth (.inr h)
    | whileLoop condition body =>
      -- the rounds that follow are a run of the same loop with less fuel
      refine .bind fun v k => .choice ?_ (.normal rfl)
      refine ((ih body k).andThen fun k' => ih (.whileLoop condition body) k').mono ?_ fun _ => rfl
      exact List.append_subset.2 ⟨List.Subset.refl _, List.Subset.refl _⟩
    | function decl => exact .bind fun _ _ => .normal rfl
    | returnWith keyword value =>
      show Leaves watch [value] true
        ((evalOption (evalWith watch fuel) value >>= fun v => pure (.returned v)) m)
      rw [bind_apply]
      cases hv : evalOption (evalWith watch fuel) value m with
      | ok v k => exact .returned ⟨List.mem_singleton_self value, hv, rfl⟩
      | error e k => exact .error
    | classDecl decl => exact .bind fun _ _ => .normal rfl

/-! ## Calls -/

/-- The body of a call, in the frame of the call. -/
theorem body_leaves (watch : Watch) (fuel : Nat) (body : List (Stmt NodeId)) (frame : FrameId)
    (m : Machine) :
    Leaves watch (Stmt.returnsAll body) (someReturns body)
      (inFrame frame (execAll (execWith watch fuel) body) m) :=
  (execAll_leaves (execWith_leaves watch fuel) body _).inFrame

/-- A function whose body always returns gives back what one of its `return` statements does. -/
theorem invoke_returned {watch : Watch} {fuel : Nat} {f : Closure} {args : List Value}
    {m n : Machine} {v : Value} (hinit : f.isInitializer = false)
    (hbody : someReturns f.decl.body = true)
    (h : invoke watch (execWith watch fuel) f args m = .ok v n) :
    Returned watch (Stmt.returnsAll f.decl.body) v n := by
  unfold invoke at h
  rw [bind_apply] at h
  split at h
  next frame k _ =>
    rw [bind_apply] at h
    split at h
    next flow k' hflow =>
      have hleaves := body_leaves watch fuel f.decl.body frame k
      rw [hflow, hbody] at hleaves
      obtain ⟨v', rfl, hv⟩ := hleaves.of_ok
      simp only [callResult, hinit] at h
      cases h
      exact hv
    next => cases h
  next => cases h

end Run

end ClassScript
