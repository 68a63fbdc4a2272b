import ClassScript.Proofs.Relabel

/-!
# Distances past an extra frame

Between two frames of a chain there may stand an extra one that binds no name. Then the distances
that lead past it are larger by one, and all else is as without it. `Pad` says where the extra frame
stands, seen from the first frame of the chain. `Stmt.Fits` says that two machines, the second one
with extra frames and with other numbers for the uses of names, know such distances for the uses in a
statement; it follows the frames that the statement opens.
-/

set_option autoImplicit false

namespace ClassScript

/-- Where an extra frame stands: nowhere, or behind so many frames of the chain. -/
inductive Pad where
  | nowhere
  | behind (count : Nat)
  deriving Repr, DecidableEq

namespace Pad

/-- The same extra frame seen from a new frame inside the first one. -/
def inner : Pad → Pad
  | nowhere => nowhere
  | behind k => behind (k + 1)

/-- The distance that leads as far in the chain with the extra frame. -/
def shift : Pad → Nat → Nat
  | nowhere, d => d
  | behind k, d => if d < k then d else d + 1

variable {p : Pad} {d : Nat}

@[simp] theorem shift_nowhere (d : Nat) : nowhere.shift d = d := rfl

@[simp] theorem shift_here (d : Nat) : (behind 0).shift d = d + 1 := rfl

@[simp] theorem shift_inner_zero (p : Pad) : p.inner.shift 0 = 0 := by
  cases p with
  | nowhere => rfl
  | behind k => simp [inner, shift]

@[simp] theorem shift_inner_succ (p : Pad) (d : Nat) : p.inner.shift (d + 1) = p.shift d + 1 := by
  cases p with
  | nowhere => rfl
  | behind k => simp only [inner, shift, Nat.add_lt_add_iff_right]; split <;> rfl

theorem inner_ne_here (p : Pad) : p.inner ≠ behind 0 := by
  cases p <;> exact nofun

/-- One frame nearer there is one frame less, unless the extra one is in between. -/
theorem shift_pred (h : p ≠ behind d) : p.shift (d - 1) = p.shift d - 1 := by
  cases p with
  | nowhere => rfl
  | behind k =>
    have hk : k ≠ d := fun he => h (congrArg behind he)
    simp only [shift]
    split <;> split <;> omega

end Pad

/-- The distances of uses of names that two machines know, the second one with extra frames, and the
numbers that the uses have in the second one. -/
structure Distances where
  use : NodeId → NodeId
  plain : NodeId → Option Nat
  padded : NodeId → Option Nat

/-- The code of the second machine: only the numbers of the uses of names differ. -/
abbrev Distances.code (D : Distances) : Relabel NodeId NodeId :=
  ⟨fun l => l, D.use⟩

/-- The distances of the use lead as far in both machines. That of `super` does not lead right behind
the extra frame, so the frame in front of its own one is not the extra one. -/
structure Distances.Moves (D : Distances) (p : Pad) (o : Occurrence NodeId) : Prop where
  shifted : D.padded o.id = (D.plain o.id).map p.shift
  super : o.kind = .super → ∀ d, D.plain o.id = some d → p ≠ .behind d

/-- The distances of all the uses do so. -/
abbrev Distances.MovesAll (D : Distances) (p : Pad) (os : List (Occurrence NodeId)) : Prop :=
  ∀ o ∈ os, D.Moves p o

/-- The extra frame seen from the frame around the members of a class. -/
def Pad.around {ι : Type} (p : Pad) : Option (SuperclassRef ι) → Pad
  | none => p
  | some _ => p.inner

mutual

/-- The distances of the uses in the statement lead as far in both machines. A statement that binds a
name does not stand right inside the extra frame. -/
def Stmt.Fits (D : Distances) (p : Pad) : Stmt NodeId → Prop
  | .expression value => D.MovesAll p value.occurrences
  | .print value => D.MovesAll p value.occurrences
  | .var decl => p ≠ .behind 0 ∧ D.MovesAll p (Expr.occurrencesOption decl.initializer)
  | .block body => Stmt.FitsAll D p.inner body
  | .ifThen condition thenBranch => D.MovesAll p condition.occurrences ∧ thenBranch.Fits D p
  | .ifElse condition thenBranch elseBranch =>
    D.MovesAll p condition.occurrences ∧ thenBranch.Fits D p ∧ elseBranch.Fits D p
  | .whileLoop condition body => D.MovesAll p condition.occurrences ∧ body.Fits D p
  | .function decl => p ≠ .behind 0 ∧ Stmt.FitsRoutine D p decl
  | .returnWith _ value => D.MovesAll p (Expr.occurrencesOption value)
  | .classDecl ⟨_, superclass, fields, methods⟩ =>
    p ≠ .behind 0 ∧ D.MovesAll p (SuperclassRef.occurrences superclass) ∧
      D.MovesAll (p.around superclass).inner (VarDecl.occurrencesAll fields) ∧
        Stmt.FitsRoutines D (p.around superclass).inner methods
termination_by structural s => s

/-- The distances of the uses in the statements do so. -/
def Stmt.FitsAll (D : Distances) (p : Pad) : List (Stmt NodeId) → Prop
  | [] => True
  | s :: rest => s.Fits D p ∧ Stmt.FitsAll D p rest
termination_by structural ss => ss

/-- The distances of the uses in the function or method do so. -/
def Stmt.FitsRoutine (D : Distances) (p : Pad) : FunctionDecl (Stmt NodeId) → Prop
  | ⟨_, _, _, body⟩ => Stmt.FitsAll D p.inner body
termination_by structural d => d

/-- The distances of the uses in the methods do so. -/
def Stmt.FitsRoutines (D : Distances) (p : Pad) : List (FunctionDecl (Stmt NodeId)) → Prop
  | [] => True
  | d :: rest => Stmt.FitsRoutine D p d ∧ Stmt.FitsRoutines D p rest
termination_by structural ds => ds

end

variable {D : Distances} {p : Pad}

theorem Distances.routine_code (d : FunctionDecl (Stmt NodeId)) :
    Stmt.relabelRoutine D.code d =
      ⟨d.name, d.params, d.result, Stmt.relabelAll D.code d.body⟩ := by
  have hparams : d.params.map (Param.onLine fun l => l) = d.params := List.map_id' d.params
  rw [Stmt.relabelRoutine_eq, hparams, Token.onLineOption_same]
  rfl

theorem Stmt.fitsRoutine_eq (d : FunctionDecl (Stmt NodeId)) :
    Stmt.FitsRoutine D p d = Stmt.FitsAll D p.inner d.body := by
  obtain ⟨name, params, result, body⟩ := d
  rfl

theorem Stmt.fitsRoutines_iff {ds : List (FunctionDecl (Stmt NodeId))} :
    Stmt.FitsRoutines D p ds ↔ ∀ d ∈ ds, Stmt.FitsRoutine D p d := by
  induction ds with
  | nil => simp [Stmt.FitsRoutines]
  | cons d rest ih => simp [Stmt.FitsRoutines, ih]

/-! ## Code without an extra frame -/

/-- The machines know the same distances of the uses. -/
abbrev Distances.Same (D : Distances) (os : List (Occurrence NodeId)) : Prop :=
  ∀ o ∈ os, D.padded o.id = D.plain o.id

theorem Distances.Same.moves {os : List (Occurrence NodeId)} (h : D.Same os) :
    D.MovesAll .nowhere os :=
  fun o ho => ⟨(h o ho).trans Option.map_id'.symm, fun _ _ _ => nofun⟩

mutual

theorem Stmt.fits_of_same : ∀ s : Stmt NodeId, D.Same s.occurrences → s.Fits D .nowhere
  | .expression _, h => Distances.Same.moves h
  | .print _, h => Distances.Same.moves h
  | .var _, h => ⟨nofun, Distances.Same.moves h⟩
  | .block body, h => Stmt.fitsAll_of_same body h
  | .ifThen _ thenBranch, h =>
    have ⟨hc, ht⟩ := List.forall_mem_append.1 h
    ⟨Distances.Same.moves hc, Stmt.fits_of_same thenBranch ht⟩
  | .ifElse _ thenBranch elseBranch, h =>
    have ⟨hct, he⟩ := List.forall_mem_append.1 h
    have ⟨hc, ht⟩ := List.forall_mem_append.1 hct
    ⟨Distances.Same.moves hc, Stmt.fits_of_same thenBranch ht, Stmt.fits_of_same elseBranch he⟩
  | .whileLoop _ body, h =>
    have ⟨hc, hb⟩ := List.forall_mem_append.1 h
    ⟨Distances.Same.moves hc, Stmt.fits_of_same body hb⟩
  | .function decl, h => ⟨nofun, Stmt.fitsRoutine_of_same decl h⟩
  | .returnWith _ _, h => Distances.Same.moves h
  | .classDecl ⟨_, superclass, _, methods⟩, h => by
    obtain ⟨hsf, hm⟩ := List.forall_mem_append.1 h
    obtain ⟨hs, hf⟩ := List.forall_mem_append.1 hsf
    have haround : Pad.nowhere.around superclass = .nowhere := by cases superclass <;> rfl
    rw [Stmt.Fits, haround]
    exact ⟨nofun, Distances.Same.moves hs, Distances.Same.moves hf,
      Stmt.fitsRoutines_of_same methods hm⟩
termination_by structural s => s

theorem Stmt.fitsAll_of_same : ∀ ss : List (Stmt NodeId), D.Same (Stmt.occurrencesAll ss) →
    Stmt.FitsAll D .nowhere ss
  | [], _ => trivial
  | s :: rest, h =>
    have ⟨hs, hr⟩ := List.forall_mem_append.1 h
    ⟨Stmt.fits_of_same s hs, Stmt.fitsAll_of_same rest hr⟩
termination_by structural ss => ss

theorem Stmt.fitsRoutine_of_same : ∀ d : FunctionDecl (Stmt NodeId),
    D.Same (Stmt.occurrencesRoutine d) → Stmt.FitsRoutine D .nowhere d
  | ⟨_, _, _, body⟩, h => Stmt.fitsAll_of_same body h
termination_by structural d => d

theorem Stmt.fitsRoutines_of_same : ∀ ds : List (FunctionDecl (Stmt NodeId)),
    D.Same (Stmt.occurrencesRoutines ds) → Stmt.FitsRoutines D .nowhere ds
  | [], _ => trivial
  | d :: rest, h =>
    have ⟨hd, hr⟩ := List.forall_mem_append.1 h
    ⟨Stmt.fitsRoutine_of_same d hd, Stmt.fitsRoutines_of_same rest hr⟩
termination_by structural ds => ds

end

end ClassScript
