import ClassScript.Proofs.Places
import Mathlib.Data.List.Perm.Subperm

/-!
# Sources that do not run

A source that is only looked at, because it is wrong or because it is only checked, is numbered and
resolved like any other one. Also with errors, the walk over a program notes distances only for uses
of names in it, at most one for each (`resolve_about`), so a session keeps all that it knew before
(`Loaded.ofProgram_numbered`).
-/

set_option autoImplicit false

namespace ClassScript

open Resolution

/-- The notes are about these uses of names, about each of them at most once. -/
def Report.About (r : Report) (os : List (Occurrence NodeId)) : Prop :=
  (r.notes.map (·.1)).Subperm (os.map (·.id))

namespace Report.About

variable {r r' : Report} {os ps : List (Occurrence NodeId)}

theorem empty : Report.empty.About os :=
  List.nil_subperm

theorem error {cause : ScopeCause} {name : Name} : (Report.error cause name).About os :=
  List.nil_subperm

theorem errorIf {condition : Bool} {cause : ScopeCause} {name : Name} :
    (Report.errorIf condition cause name).About os := by
  cases condition with
  | false => exact empty
  | true => exact error

theorem mem (h : r.About os) {n : NodeId × Nat} (hn : n ∈ r.notes) : ∃ o ∈ os, o.id = n.1 :=
  List.mem_map.1 (h.subset (List.mem_map_of_mem hn))

theorem append (h : r.About os) (h' : r'.About ps) : (r ++ r').About (os ++ ps) := by
  show ((r.notes ++ r'.notes).map (·.1)).Subperm ((os ++ ps).map (·.id))
  rw [List.map_append, List.map_append]
  exact List.Subperm.append h h'

theorem swap (h : r.About os) (h' : r'.About ps) : (r ++ r').About (ps ++ os) :=
  (h.append h').trans (List.perm_append_comm.map _).subperm

/-- What notes nothing may come before. -/
theorem after (h : r.About []) (h' : r'.About os) : (r ++ r').About os :=
  h.append h'

theorem note (scopes : Scopes) (kind : UseKind) (id : NodeId) (name : Name) :
    (Resolution.note scopes id name).About [⟨kind, id, name⟩] := by
  unfold Resolution.note
  split
  · exact List.Subperm.refl [id]
  · exact empty

end Report.About

open Report.About

mutual

theorem Expr.noted_about (enclosing : Enclosing) (scopes : Scopes) : ∀ e : Expr NodeId,
    (expression enclosing scopes e).About e.occurrences
  | .literal _ => empty
  | .unary _ operand => Expr.noted_about enclosing scopes operand
  | .suffixed operand _ => Expr.noted_about enclosing scopes operand
  | .binary left _ right =>
    (Expr.noted_about enclosing scopes left).append (Expr.noted_about enclosing scopes right)
  | .logical left _ right =>
    (Expr.noted_about enclosing scopes left).append (Expr.noted_about enclosing scopes right)
  | .grouping inner => Expr.noted_about enclosing scopes inner
  | .variable id name => errorIf.after (note scopes .variable id name)
  | .assign id name value =>
    (Expr.noted_about enclosing scopes value).swap (note scopes .assign id name)
  | .call callee _ arguments =>
    (Expr.noted_about enclosing scopes callee).append (Expr.notedAll_about enclosing scopes arguments)
  | .get object _ => Expr.noted_about enclosing scopes object
  | .set object _ value =>
    (Expr.noted_about enclosing scopes value).swap (Expr.noted_about enclosing scopes object)
  | .this id keyword => by
    cases enclosing with
    | none => exact error
    | baseClass => exact note scopes .this id keyword
    | subclass => exact note scopes .this id keyword
  | .super id keyword _ => by
    cases enclosing with
    | none => exact error
    | baseClass => exact error
    | subclass => exact note scopes .super id keyword
termination_by structural e => e

theorem Expr.notedAll_about (enclosing : Enclosing) (scopes : Scopes) : ∀ es : List (Expr NodeId),
    (expressions enclosing scopes es).About (Expr.occurrencesAll es)
  | [] => empty
  | e :: rest =>
    (Expr.noted_about enclosing scopes e).append (Expr.notedAll_about enclosing scopes rest)
termination_by structural es => es

end

theorem Expr.notedOption_about (enclosing : Enclosing) (scopes : Scopes)
    (e : Option (Expr NodeId)) :
    (expressionOption enclosing scopes e).About (Expr.occurrencesOption e) := by
  cases e with
  | none => exact empty
  | some e => exact e.noted_about enclosing scopes

theorem VarDecl.notedAll_about (enclosing : Enclosing) (scopes : Scopes)
    (ds : List (VarDecl NodeId)) :
    (Resolution.fields enclosing scopes ds).About (VarDecl.occurrencesAll ds) := by
  induction ds with
  | nil => exact empty
  | cons d rest ih => exact (Expr.notedOption_about enclosing scopes d.initializer).append ih

theorem SuperclassRef.noted_about (scopes : Scopes) (name : Name)
    (s : Option (SuperclassRef NodeId)) :
    (Resolution.superclass scopes name s).About (SuperclassRef.occurrences s) := by
  cases s with
  | none => exact empty
  | some s => exact errorIf.after (Expr.noted_about .subclass scopes (.variable s.id s.name))

theorem declare_about (scopes : Scopes) (name : Name) : (declare scopes name).2.About [] := by
  unfold declare
  split
  · exact empty
  · split
    · exact error
    · exact empty

theorem declareAll_about (scopes : Scopes) (params : List Param) :
    (declareAll scopes params).2.About [] := by
  induction params generalizing scopes with
  | nil => exact empty
  | cons p rest ih => exact (declare_about scopes p.name).append (ih _)

mutual

theorem Stmt.noted_about : ∀ (s : Stmt NodeId) (routine : Routine) (enclosing : Enclosing)
    (scopes : Scopes), (statement routine enclosing scopes s).2.About s.occurrences
  | .expression value, _, enclosing, scopes => value.noted_about enclosing scopes
  | .print value, _, enclosing, scopes => value.noted_about enclosing scopes
  | .var decl, _, enclosing, scopes =>
    (declare_about scopes decl.name).after (Expr.notedOption_about enclosing _ decl.initializer)
  | .block body, routine, enclosing, _ => Stmt.notedAll_about body routine enclosing _
  | .ifThen condition thenBranch, routine, enclosing, scopes =>
    (condition.noted_about enclosing scopes).append (thenBranch.noted_about routine enclosing scopes)
  | .ifElse condition thenBranch elseBranch, routine, enclosing, scopes =>
    ((condition.noted_about enclosing scopes).append
      (thenBranch.noted_about routine enclosing scopes)).append
      (elseBranch.noted_about routine enclosing _)
  | .whileLoop condition body, routine, enclosing, scopes =>
    (condition.noted_about enclosing scopes).append (body.noted_about routine enclosing scopes)
  | .function decl, _, enclosing, scopes =>
    (declare_about scopes decl.name).after (Stmt.notedRoutine_about decl .function enclosing _)
  | .returnWith _ value, _, enclosing, scopes =>
    (errorIf.after errorIf).after (Expr.notedOption_about enclosing scopes value)
  | .classDecl ⟨name, superclass, fields, methods⟩, _, _, scopes =>
    (((declare_about scopes name).after (SuperclassRef.noted_about _ name superclass)).append
      (VarDecl.notedAll_about _ _ fields)).append (Stmt.notedRoutines_about methods _ _ name)
termination_by structural s => s

theorem Stmt.notedAll_about : ∀ (ss : List (Stmt NodeId)) (routine : Routine)
    (enclosing : Enclosing) (scopes : Scopes),
    (statements routine enclosing scopes ss).2.About (Stmt.occurrencesAll ss)
  | [], _, _, _ => empty
  | s :: rest, routine, enclosing, scopes =>
    (s.noted_about routine enclosing scopes).append (Stmt.notedAll_about rest routine enclosing _)
termination_by structural ss => ss

theorem Stmt.notedRoutine_about : ∀ (d : FunctionDecl (Stmt NodeId)) (routine : Routine)
    (enclosing : Enclosing) (scopes : Scopes),
    (Resolution.function routine enclosing scopes d).About (Stmt.occurrencesRoutine d)
  | ⟨_, params, _, body⟩, routine, enclosing, _ =>
    (declareAll_about _ params).after (Stmt.notedAll_about body routine enclosing _)
termination_by structural d => d

theorem Stmt.notedRoutines_about : ∀ (ds : List (FunctionDecl (Stmt NodeId)))
    (enclosing : Enclosing) (scopes : Scopes) (className : Name),
    (Resolution.methods enclosing scopes className ds).About (Stmt.occurrencesRoutines ds)
  | [], _, _, _ => empty
  | d :: rest, enclosing, scopes, className =>
    (Stmt.notedRoutine_about d _ enclosing scopes).append
      (Stmt.notedRoutines_about rest enclosing scopes className)
termination_by structural ds => ds

end

/-- The walk over a program notes something of a use of a name in it at most once. -/
theorem resolve_about (program : List (Stmt NodeId)) :
    (resolve program).About (Stmt.occurrencesAll program) := by
  rw [resolve_eq]
  exact Stmt.notedAll_about program .none .none []

theorem Loaded.ofProgram_numbered (first : NodeId) (program : List (Stmt Unit)) :
    (Loaded.ofProgram first program).Numbered first := by
  have hn := Stmt.numberAll_numbers program first
  refine ⟨hn.le, fun n hmem => ?_⟩
  obtain ⟨o, ho, hid⟩ := (resolve_about (Loaded.ofProgram first program).program).mem hmem
  exact hid ▸ hn.bounds ho

end ClassScript
