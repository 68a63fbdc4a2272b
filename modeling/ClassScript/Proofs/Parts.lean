import ClassScript.Proofs.Derivation
import ClassScript.Proofs.Relabel
import ClassScript.Proofs.Shape

/-!
# The statements in a program

`Stmt.insideAll` lists all statements of a program, those inside others included. In a program that is
derived none of them has a declaration as a branch or as the body of a loop, and a superclass is named
by an identifier of the source (`Derives.program_formed`). Neither depends on labels, and the use of a
superclass is among the uses of names of the program (`Stmt.occurrencesAll_subset`).
-/

set_option autoImplicit false

namespace ClassScript

variable {ι κ : Type}

mutual

/-- The statements inside a statement. -/
def Stmt.inside : Stmt ι → List (Stmt ι)
  | .expression _ => []
  | .print _ => []
  | .var _ => []
  | .block body => Stmt.insideAll body
  | .ifThen _ thenBranch => thenBranch :: thenBranch.inside
  | .ifElse _ thenBranch elseBranch =>
    (thenBranch :: thenBranch.inside) ++ (elseBranch :: elseBranch.inside)
  | .whileLoop _ body => body :: body.inside
  | .function decl => Stmt.insideRoutine decl
  | .returnWith _ _ => []
  | .classDecl ⟨_, _, _, methods⟩ => Stmt.insideRoutines methods
termination_by structural s => s

/-- The statements and those inside them. -/
def Stmt.insideAll : List (Stmt ι) → List (Stmt ι)
  | [] => []
  | s :: rest => (s :: s.inside) ++ Stmt.insideAll rest
termination_by structural ss => ss

/-- The statements inside a function or a method. -/
def Stmt.insideRoutine : FunctionDecl (Stmt ι) → List (Stmt ι)
  | ⟨_, _, _, body⟩ => Stmt.insideAll body
termination_by structural d => d

/-- The statements inside methods. -/
def Stmt.insideRoutines : List (FunctionDecl (Stmt ι)) → List (Stmt ι)
  | [] => []
  | d :: rest => Stmt.insideRoutine d ++ Stmt.insideRoutines rest
termination_by structural ds => ds

end

/-- The branches of an `if`, the body of a loop. -/
def Stmt.branches : Stmt ι → List (Stmt ι)
  | .ifThen _ thenBranch => [thenBranch]
  | .ifElse _ thenBranch elseBranch => [thenBranch, elseBranch]
  | .whileLoop _ body => [body]
  | _ => []

/-- The superclass of a class. -/
def Stmt.superclass? : Stmt ι → Option (SuperclassRef ι)
  | .classDecl d => d.superclass
  | _ => none

/-! ## Labels -/

section

variable (ρ : Relabel ι κ)

theorem Stmt.isBranch_relabel (s : Stmt ι) : (s.relabel ρ).isBranch = s.isBranch := by
  cases s with
  | classDecl d => cases d; rfl
  | _ => rfl

theorem Stmt.branches_relabel (s : Stmt ι) :
    (s.relabel ρ).branches = s.branches.map (Stmt.relabel ρ) := by
  cases s with
  | classDecl d => cases d; rfl
  | _ => rfl

theorem Stmt.superclass?_relabel (s : Stmt ι) :
    (s.relabel ρ).superclass? = s.superclass?.map (SuperclassRef.relabel ρ) := by
  cases s with
  | classDecl d => cases d; rfl
  | _ => rfl

mutual

theorem Stmt.inside_relabel : ∀ s : Stmt ι,
    (s.relabel ρ).inside = s.inside.map (Stmt.relabel ρ)
  | .expression _ => rfl
  | .print _ => rfl
  | .var _ => rfl
  | .block body => Stmt.insideAll_relabel body
  | .ifThen _ thenBranch => congrArg (List.cons _) thenBranch.inside_relabel
  | .ifElse _ thenBranch elseBranch => by
    rw [Stmt.relabel, Stmt.inside, Stmt.inside, thenBranch.inside_relabel,
      elseBranch.inside_relabel, List.map_append, List.map_cons, List.map_cons]
  | .whileLoop _ body => congrArg (List.cons _) body.inside_relabel
  | .function decl => Stmt.insideRoutine_relabel decl
  | .returnWith _ _ => rfl
  | .classDecl ⟨_, _, _, methods⟩ => Stmt.insideRoutines_relabel methods
termination_by structural s => s

theorem Stmt.insideAll_relabel : ∀ ss : List (Stmt ι),
    Stmt.insideAll (Stmt.relabelAll ρ ss) = (Stmt.insideAll ss).map (Stmt.relabel ρ)
  | [] => rfl
  | s :: rest => by
    rw [Stmt.relabelAll, Stmt.insideAll, Stmt.insideAll, s.inside_relabel,
      Stmt.insideAll_relabel rest, List.map_append, List.map_cons]
termination_by structural ss => ss

theorem Stmt.insideRoutine_relabel : ∀ d : FunctionDecl (Stmt ι),
    Stmt.insideRoutine (Stmt.relabelRoutine ρ d) = (Stmt.insideRoutine d).map (Stmt.relabel ρ)
  | ⟨_, _, _, body⟩ => Stmt.insideAll_relabel body
termination_by structural d => d

theorem Stmt.insideRoutines_relabel : ∀ ds : List (FunctionDecl (Stmt ι)),
    Stmt.insideRoutines (Stmt.relabelRoutines ρ ds) =
      (Stmt.insideRoutines ds).map (Stmt.relabel ρ)
  | [] => rfl
  | d :: rest => by
    rw [Stmt.relabelRoutines, Stmt.insideRoutines, Stmt.insideRoutines,
      Stmt.insideRoutine_relabel d, Stmt.insideRoutines_relabel rest, List.map_append]
termination_by structural ds => ds

end

end

/-! ## Uses of names -/

/-- The use of the superclass of a class is one of the uses in it. -/
theorem Stmt.superclass?_mem {s : Stmt ι} {superclass : SuperclassRef ι}
    (h : s.superclass? = some superclass) :
    (⟨.variable, superclass.id, superclass.name⟩ : Occurrence ι) ∈ s.occurrences := by
  cases s with
  | classDecl d =>
    obtain ⟨_, _, _, _⟩ := d
    cases h
    exact List.mem_append_left _ (List.mem_append_left _ List.mem_cons_self)
  | _ => cases h

/-- All uses of names in the statements are among these. -/
def Stmt.UsesIn (os : List (Occurrence ι)) (ss : List (Stmt ι)) : Prop :=
  ∀ s ∈ ss, s.occurrences ⊆ os

namespace Stmt.UsesIn

variable {os os' : List (Occurrence ι)} {ss ss' : List (Stmt ι)}

theorem nil : UsesIn os ([] : List (Stmt ι)) :=
  fun _ hs => absurd hs List.not_mem_nil

theorem cons {s : Stmt ι} (hs : s.occurrences ⊆ os) (h : UsesIn os ss) : UsesIn os (s :: ss) :=
  List.forall_mem_cons.2 ⟨hs, h⟩

theorem append (h : UsesIn os ss) (h' : UsesIn os ss') : UsesIn os (ss ++ ss') :=
  List.forall_mem_append.2 ⟨h, h'⟩

theorem mono (h : UsesIn os ss) (hle : os ⊆ os') : UsesIn os' ss :=
  fun s hs => List.Subset.trans (h s hs) hle

end Stmt.UsesIn

mutual

theorem Stmt.occurrences_subset : ∀ s : Stmt ι, UsesIn s.occurrences s.inside
  | .expression _ => .nil
  | .print _ => .nil
  | .var _ => .nil
  | .block body => Stmt.occurrencesAll_subset body
  | .ifThen _ thenBranch =>
    (UsesIn.cons (List.Subset.refl _) thenBranch.occurrences_subset).mono
      (List.subset_append_right ..)
  | .ifElse _ thenBranch elseBranch =>
    ((UsesIn.cons (List.Subset.refl _) thenBranch.occurrences_subset).mono
        (List.Subset.trans (List.subset_append_right ..) (List.subset_append_left ..))).append
      ((UsesIn.cons (List.Subset.refl _) elseBranch.occurrences_subset).mono
        (List.subset_append_right ..))
  | .whileLoop _ body =>
    (UsesIn.cons (List.Subset.refl _) body.occurrences_subset).mono (List.subset_append_right ..)
  | .function decl => Stmt.occurrencesRoutine_subset decl
  | .returnWith _ _ => .nil
  | .classDecl ⟨_, _, _, methods⟩ =>
    (Stmt.occurrencesRoutines_subset methods).mono (List.subset_append_right ..)
termination_by structural s => s

theorem Stmt.occurrencesAll_subset : ∀ ss : List (Stmt ι),
    UsesIn (Stmt.occurrencesAll ss) (Stmt.insideAll ss)
  | [] => .nil
  | s :: rest =>
    ((UsesIn.cons (List.Subset.refl _) s.occurrences_subset).mono
        (List.subset_append_left ..)).append
      ((Stmt.occurrencesAll_subset rest).mono (List.subset_append_right ..))
termination_by structural ss => ss

theorem Stmt.occurrencesRoutine_subset : ∀ d : FunctionDecl (Stmt ι),
    UsesIn (Stmt.occurrencesRoutine d) (Stmt.insideRoutine d)
  | ⟨_, _, _, body⟩ => Stmt.occurrencesAll_subset body
termination_by structural d => d

theorem Stmt.occurrencesRoutines_subset : ∀ ds : List (FunctionDecl (Stmt ι)),
    UsesIn (Stmt.occurrencesRoutines ds) (Stmt.insideRoutines ds)
  | [] => .nil
  | d :: rest =>
    ((Stmt.occurrencesRoutine_subset d).mono (List.subset_append_left ..)).append
      ((Stmt.occurrencesRoutines_subset rest).mono (List.subset_append_right ..))
termination_by structural ds => ds

end

/-! ## Derived programs -/

/-- Statements of which none has a declaration as a branch, and whose superclasses are named by
identifiers among the tokens. -/
structure Stmt.Formed (ts : List Token) (ss : List (Stmt ι)) : Prop where
  branches : ∀ s ∈ ss, ∀ b ∈ s.branches, b.isBranch = true
  superclasses : ∀ s ∈ ss, ∀ superclass, s.superclass? = some superclass →
    ∃ t ∈ ts, t.kind = .identifier ∧ superclass.name = t.toName

namespace Stmt.Formed

variable {ts ts' : List Token} {s : Stmt ι} {ss ss' : List (Stmt ι)}

theorem nil : Formed ts ([] : List (Stmt ι)) :=
  ⟨fun _ hs => absurd hs List.not_mem_nil, fun _ hs => absurd hs List.not_mem_nil⟩

theorem mono (h : Formed ts ss) (hle : ts ⊆ ts') : Formed ts' ss :=
  ⟨h.branches, fun s hs superclass hsuper =>
    (h.superclasses s hs superclass hsuper).imp fun _ ht => ht.imp_left (hle ·)⟩

theorem append (h : Formed ts ss) (h' : Formed ts ss') : Formed ts (ss ++ ss') :=
  ⟨List.forall_mem_append.2 ⟨h.branches, h'.branches⟩,
    List.forall_mem_append.2 ⟨h.superclasses, h'.superclasses⟩⟩

/-- A statement that is no class is formed if its branches are no declarations. -/
theorem cons (h : Formed ts ss) (hb : ∀ b ∈ s.branches, b.isBranch = true)
    (hs : s.superclass? = none) : Formed ts (s :: ss) :=
  ⟨List.forall_mem_cons.2 ⟨hb, h.branches⟩, List.forall_mem_cons.2
    ⟨fun _ hsuper => absurd (hs.symm.trans hsuper) (Option.some_ne_none _).symm, h.superclasses⟩⟩

/-- A statement without branches and superclass is formed. -/
theorem plain (h : Formed ts ss) (hb : s.branches = []) (hs : s.superclass? = none) :
    Formed ts (s :: ss) :=
  h.cons (fun _ hb' => absurd (hb ▸ hb') List.not_mem_nil) hs

theorem single (hb : s.branches = []) (hs : s.superclass? = none) : Formed ts [s] :=
  nil.plain hb hs

/-- Labels make no difference. -/
theorem of_bare (h : Formed ts (ss.map (Stmt.relabel .bare))) : Formed ts ss where
  branches s hs b hb := by
    have hbranch := h.branches _ (List.mem_map_of_mem hs) (b.relabel .bare)
      (s.branches_relabel .bare ▸ List.mem_map_of_mem hb)
    rwa [Stmt.isBranch_relabel] at hbranch
  superclasses s hs superclass hsuper :=
    h.superclasses _ (List.mem_map_of_mem hs) (superclass.relabel .bare)
      (s.superclass?_relabel .bare ▸ hsuper ▸ rfl)

end Stmt.Formed

namespace Derives

open Grammar (ForClauses)

variable {ts : List Token}

/-- A statement that may be a branch, and that is formed. -/
def Branch (ts : List Token) (s : Stmt Unit) : Prop :=
  s.isBranch = true ∧ Stmt.Formed ts (s :: s.inside)

theorem loop_formed {us : List Token} {clauses : ForClauses} {body : Stmt Unit}
    (hc : Clauses us clauses) (hb : Branch ts body) : Branch ts (clauses.loop body) := by
  obtain @⟨_, _, _, _, _, _, first, condition, increment, -, hfirst, -, -, -, -⟩ := hc
  -- an increment only puts a block around the body
  have hloop (round : Stmt Unit) (hr : Branch ts round) :
      Branch ts (ForClauses.loop ⟨first, condition, none⟩ round) := by
    have hwhile : Stmt.Formed ts (.whileLoop (condition.getD (.literal (.boolean true))) round ::
        round :: round.inside) :=
      hr.2.cons (List.forall_mem_singleton.2 hr.1) rfl
    cases hfirst with
    | none => exact ⟨rfl, hwhile⟩
    | var _ _ => exact ⟨rfl, ((hwhile.append .nil).plain rfl rfl).plain rfl rfl⟩
    | expression _ _ => exact ⟨rfl, ((hwhile.append .nil).plain rfl rfl).plain rfl rfl⟩
  cases increment with
  | none => exact hloop body hb
  | some e =>
    refine hloop (.block [body, .expression e]) ⟨rfl, ?_⟩
    exact (hb.2.append (Stmt.Formed.single rfl rfl)).plain rfl rfl

mutual

theorem statement_formed {dangling : Bool} {ts : List Token} {s : Stmt Unit} :
    Statement dangling ts s → Branch ts s
  | .expression _ _ => ⟨rfl, .single rfl rfl⟩
  | .print _ _ _ => ⟨rfl, .single rfl rfl⟩
  | .returnWith _ _ _ => ⟨rfl, .single rfl rfl⟩
  | .block _ hb =>
    ⟨rfl, ((body_formed hb).mono (List.subset_cons_self ..)).plain rfl rfl⟩
  | .ifThen _ _ hs => by
    obtain ⟨hbranch, hinside⟩ := statement_formed hs
    exact ⟨rfl, (hinside.mono (by simp)).cons (List.forall_mem_singleton.2 hbranch) rfl⟩
  | .ifElse _ _ hs _ he => by
    obtain ⟨hthen, hinside⟩ := statement_formed hs
    obtain ⟨helse, hinside'⟩ := statement_formed he
    refine ⟨rfl, ((hinside.mono ?_).append (hinside'.mono ?_)).cons ?_ rfl⟩
    · exact fun _ ht => by simp [ht]
    · exact fun _ ht => by simp [ht]
    · exact List.forall_mem_cons.2 ⟨hthen, List.forall_mem_singleton.2 helse⟩
  | .whileLoop _ _ hs => by
    obtain ⟨hbranch, hinside⟩ := statement_formed hs
    exact ⟨rfl, (hinside.mono (by simp)).cons (List.forall_mem_singleton.2 hbranch) rfl⟩
  | .forLoop _ hc hs => by
    obtain ⟨hbranch, hinside⟩ := statement_formed hs
    exact loop_formed hc ⟨hbranch, hinside.mono (by simp)⟩
termination_by structural d => d

theorem body_formed {ts : List Token} {ss : List (Stmt Unit)} :
    Body ts ss → Stmt.Formed ts (Stmt.insideAll ss)
  | .nil _ => .nil
  | .cons hd hb =>
    ((declaration_formed hd).mono (List.subset_append_left ..)).append
      ((body_formed hb).mono (List.subset_append_right ..))
termination_by structural d => d

theorem declaration_formed {ts : List Token} {s : Stmt Unit} :
    Declaration ts s → Stmt.Formed ts (s :: s.inside)
  | .classDecl _ _ hsuper _ hm => by
    have hinside := members_formed hm
    refine ⟨List.forall_mem_cons.2 ⟨fun _ h => absurd h List.not_mem_nil, hinside.branches⟩,
      List.forall_mem_cons.2 ⟨fun superclass hs => ?_, (hinside.mono fun _ ht => by simp [ht]).superclasses⟩⟩
    cases hsuper with
    | none => cases hs
    | some _ hname =>
      cases hs
      exact ⟨_, by simp, hname, rfl⟩
  | .function _ hr =>
    ((routine_formed hr).mono (List.subset_cons_self ..)).plain rfl rfl
  | .var _ _ => .single rfl rfl
  | .statement hs => (statement_formed hs).2
termination_by structural d => d

theorem routine_formed {ts : List Token} {d : FunctionDecl (Stmt Unit)} :
    Routine ts d → Stmt.Formed ts (Stmt.insideRoutine d)
  | .mk _ _ hb => by
    rw [Stmt.insideRoutine]
    exact (body_formed hb).mono (by simp)
termination_by structural d => d

theorem members_formed {ts : List Token} {fields : List (VarDecl Unit)}
    {methods : List (FunctionDecl (Stmt Unit))} :
    MembersOf ts fields methods → Stmt.Formed ts (Stmt.insideRoutines methods)
  | .nil _ => .nil
  | .field _ _ hm => (members_formed hm).mono (by simp)
  | .method hr hm =>
    ((routine_formed hr).mono (List.subset_append_left ..)).append
      ((members_formed hm).mono (List.subset_append_right ..))
termination_by structural d => d

end

/-- No statement in a program has a declaration as a branch or as the body of a loop, and every
superclass in it is named by an identifier. -/
theorem program_formed {ss : List (Stmt Unit)} (h : Program ts ss) :
    Stmt.Formed ts (Stmt.insideAll ss) := by
  induction h with
  | nil => exact .nil
  | cons hd _ ih =>
    exact ((declaration_formed hd).mono (List.subset_append_left ..)).append
      (ih.mono (List.subset_append_right ..))

end Derives

end ClassScript
