import ClassScript.Scope.Resolver

/-!
# What a walk of the resolver reports

The resolver changes its state on the way and puts back what it has changed, also around faulty
declarations. So a walk over an expression adds a report and nothing else (`Resolver.expression_apply`),
and one over a statement adds a report and leaves the innermost scope with the names that it declares
(`Resolver.statement_apply`): the report on a program is that of `Resolution` (`resolve_eq`).
-/

set_option autoImplicit false

namespace ClassScript

namespace Report

theorem append_assoc (a b c : Report) : (a ++ b) ++ c = a ++ (b ++ c) := by
  show Report.mk ((a.errors ++ b.errors) ++ c.errors) ((a.notes ++ b.notes) ++ c.notes) = _
  rw [List.append_assoc, List.append_assoc]
  rfl

theorem append_empty (a : Report) : a ++ empty = a := by
  show Report.mk (a.errors ++ []) (a.notes ++ []) = a
  rw [List.append_nil, List.append_nil]

end Report

/-! ## Scopes after a statement -/

namespace Resolution

/-- The same scopes, but for the names that the innermost one binds. -/
structure Scopes.Beside (after before : Scopes) : Prop where
  length : after.length = before.length
  outer : after.tail = before.tail

namespace Scopes.Beside

variable {a b c : Scopes}

theorem refl (a : Scopes) : a.Beside a :=
  ⟨rfl, rfl⟩

theorem trans (h : c.Beside b) (h' : b.Beside a) : c.Beside a :=
  ⟨h.length.trans h'.length, h.outer.trans h'.outer⟩

end Scopes.Beside

theorem declare_beside (scopes : Scopes) (name : Name) : (declare scopes name).1.Beside scopes := by
  cases scopes with
  | nil => exact .refl []
  | cons scope outer =>
    unfold declare
    dsimp only
    split
    · exact .refl _
    · exact ⟨rfl, rfl⟩

theorem define_beside (scopes : Scopes) (name : Name) : (define scopes name).Beside scopes := by
  cases scopes with
  | nil => exact .refl []
  | cons scope outer => exact ⟨rfl, rfl⟩

theorem declareAndDefine_beside (scopes : Scopes) (name : Name) :
    (declareAndDefine scopes name).1.Beside scopes :=
  (define_beside _ name).trans (declare_beside scopes name)

theorem declareAll_beside (scopes : Scopes) (params : List Param) :
    (declareAll scopes params).1.Beside scopes := by
  induction params generalizing scopes with
  | nil => exact .refl scopes
  | cons p rest ih => exact (ih _).trans (declareAndDefine_beside scopes p.name)

theorem statement_beside : ∀ (s : Stmt NodeId) (routine : Routine) (enclosing : Enclosing)
    (scopes : Scopes), (statement routine enclosing scopes s).1.Beside scopes
  | .expression _, _, _, scopes => .refl scopes
  | .print _, _, _, scopes => .refl scopes
  | .var decl, _, _, scopes => (define_beside _ decl.name).trans (declare_beside scopes decl.name)
  | .block _, _, _, scopes => .refl scopes
  | .ifThen _ thenBranch, routine, enclosing, scopes =>
    statement_beside thenBranch routine enclosing scopes
  | .ifElse _ thenBranch elseBranch, routine, enclosing, scopes =>
    (statement_beside elseBranch routine enclosing _).trans
      (statement_beside thenBranch routine enclosing scopes)
  | .whileLoop _ body, routine, enclosing, scopes => statement_beside body routine enclosing scopes
  | .function decl, _, _, scopes => declareAndDefine_beside scopes decl.name
  | .returnWith _ _, _, _, scopes => .refl scopes
  | .classDecl ⟨name, _, _, _⟩, _, _, scopes => declareAndDefine_beside scopes name
termination_by structural s => s

theorem statements_beside (ss : List (Stmt NodeId)) (routine : Routine) (enclosing : Enclosing)
    (scopes : Scopes) : (statements routine enclosing scopes ss).1.Beside scopes := by
  induction ss generalizing scopes with
  | nil => exact .refl scopes
  | cons s rest ih => exact (ih _).trans (statement_beside s routine enclosing scopes)

end Resolution

namespace Resolver

open Resolution (Scopes Routine Enclosing)

variable {α β : Type}

/-- One part of the walk after another. -/
theorem bind_apply (x : Walk α) (f : α → Walk β) (r : Resolver) :
    (x >>= f) r = f (x r).1 (x r).2 := rfl

theorem pure_apply (a : α) (r : Resolver) : (pure a : Walk α) r = (a, r) := rfl

theorem get_apply (r : Resolver) : (get : Walk Resolver) r = (r, r) := rfl

/-- The resolver when it stands in other scopes and has reported more. -/
def after (r : Resolver) (outcome : Scopes × Report) : Resolver :=
  ⟨outcome.1, r.routine, r.enclosing, r.report ++ outcome.2⟩

theorem after_after (r : Resolver) (a b : Scopes × Report) :
    (r.after a).after b = r.after (b.1, a.2 ++ b.2) :=
  congrArg (Resolver.mk b.1 r.routine r.enclosing) (Report.append_assoc ..)

/-- Nothing is reported and the scopes stay. -/
theorem after_self (r : Resolver) : r.after (r.scopes, .empty) = r :=
  congrArg (Resolver.mk r.scopes r.routine r.enclosing) (Report.append_empty _)

/-! ## Expressions -/

section

variable (r : Resolver)

theorem noteUse_apply (id : NodeId) (name : Name) :
    noteUse id name r = ((), r.after (r.scopes, Resolution.note r.scopes id name)) := rfl

theorem errorIf_apply (condition : Bool) (cause : ScopeCause) (name : Name) :
    errorIf condition cause name r = ((), r.after (r.scopes, .errorIf condition cause name)) := by
  cases condition with
  | true => rfl
  | false => exact congrArg (Prod.mk ()) r.after_self.symm

end

mutual

theorem expression_apply : ∀ (e : Expr NodeId) (r : Resolver),
    expression e r = ((), r.after (r.scopes, Resolution.expression r.enclosing r.scopes e))
  | .literal _, r => congrArg (Prod.mk ()) r.after_self.symm
  | .unary _ operand, r => expression_apply operand r
  | .suffixed operand _, r => expression_apply operand r
  | .binary left _ right, r => by
    simp only [expression, bind_apply, expression_apply left, expression_apply right, after_after]
    rfl
  | .logical left _ right, r => by
    simp only [expression, bind_apply, expression_apply left, expression_apply right, after_after]
    rfl
  | .grouping inner, r => expression_apply inner r
  | .variable id name, r => by
    simp only [expression, bind_apply, get_apply, errorIf_apply, noteUse_apply, after_after]
    rfl
  | .assign id name value, r => by
    simp only [expression, bind_apply, expression_apply value, noteUse_apply, after_after]
    rfl
  | .call callee _ arguments, r => by
    simp only [expression, bind_apply, expression_apply callee, expressions_apply arguments, after_after]
    rfl
  | .get object _, r => expression_apply object r
  | .set object _ value, r => by
    simp only [expression, bind_apply, expression_apply value, expression_apply object, after_after]
    rfl
  | .this id keyword, r => by
    obtain ⟨scopes, routine, enclosing, report⟩ := r
    cases enclosing <;> rfl
  | .super id keyword method, r => by
    obtain ⟨scopes, routine, enclosing, report⟩ := r
    cases enclosing <;> rfl
termination_by structural e => e

theorem expressions_apply : ∀ (es : List (Expr NodeId)) (r : Resolver),
    expressions es r = ((), r.after (r.scopes, Resolution.expressions r.enclosing r.scopes es))
  | [], r => congrArg (Prod.mk ()) r.after_self.symm
  | e :: rest, r => by
    simp only [expressions, bind_apply, expression_apply e, expressions_apply rest, after_after]
    rfl
termination_by structural es => es

end

theorem expressionOption_apply (e : Option (Expr NodeId)) (r : Resolver) : expressionOption e r =
    ((), r.after (r.scopes, Resolution.expressionOption r.enclosing r.scopes e)) := by
  cases e with
  | none => exact congrArg (Prod.mk ()) r.after_self.symm
  | some e => exact expression_apply e r

theorem fields_apply (ds : List (VarDecl NodeId)) (r : Resolver) :
    fields ds r = ((), r.after (r.scopes, Resolution.fields r.enclosing r.scopes ds)) := by
  induction ds generalizing r with
  | nil => exact congrArg (Prod.mk ()) r.after_self.symm
  | cons d rest ih =>
    simp only [fields, bind_apply, expressionOption_apply, ih, after_after]
    rfl

/-! ## Declarations -/

theorem declare_apply (name : Name) (r : Resolver) :
    declare name r = ((), r.after (Resolution.declare r.scopes name)) := rfl

theorem define_apply (name : Name) (r : Resolver) :
    define name r = ((), r.after (Resolution.define r.scopes name, .empty)) := by
  rw [after, Report.append_empty]
  rfl

theorem parameters_apply (params : List Param) (r : Resolver) :
    parameters params r = ((), r.after (Resolution.declareAll r.scopes params)) := by
  induction params generalizing r with
  | nil => exact congrArg (Prod.mk ()) r.after_self.symm
  | cons p rest ih =>
    simp only [parameters, bind_apply, declare_apply, define_apply, ih, after_after,
      Report.append_empty]
    rfl

theorem beginScope_apply (r : Resolver) :
    beginScope r = ((), ⟨.empty :: r.scopes, r.routine, r.enclosing, r.report⟩) := rfl

theorem endScope_apply (r : Resolver) :
    endScope r = ((), ⟨r.scopes.tail, r.routine, r.enclosing, r.report⟩) := rfl

theorem openWord_apply (word : String) (r : Resolver) : openWord word r =
    ((), ⟨.single word true :: r.scopes, r.routine, r.enclosing, r.report⟩) := rfl

theorem setRoutine_apply (routine : Routine) (r : Resolver) :
    setRoutine routine r = ((), ⟨r.scopes, routine, r.enclosing, r.report⟩) := rfl

theorem setEnclosing_apply (enclosing : Enclosing) (r : Resolver) :
    setEnclosing enclosing r = ((), ⟨r.scopes, r.routine, enclosing, r.report⟩) := rfl

/-! ## Statements -/

mutual

theorem statement_apply : ∀ (s : Stmt NodeId) (r : Resolver),
    statement s r = ((), r.after (Resolution.statement r.routine r.enclosing r.scopes s))
  | .expression value, r => expression_apply value r
  | .print value, r => expression_apply value r
  | .var decl, r => by
    simp only [statement, bind_apply, declare_apply, expressionOption_apply, define_apply, after_after,
      Report.append_empty]
    rfl
  | .block body, r => by
    have hscopes := (Resolution.statements_beside body r.routine r.enclosing (.empty :: r.scopes)).outer
    simp only [statement, bind_apply, beginScope_apply, statements_apply body, endScope_apply, after,
      hscopes]
    rfl
  | .ifThen condition thenBranch, r => by
    simp only [statement, bind_apply, expression_apply, statement_apply thenBranch, after_after]
    rfl
  | .ifElse condition thenBranch elseBranch, r => by
    simp only [statement, bind_apply, expression_apply, statement_apply thenBranch,
      statement_apply elseBranch, after_after]
    rfl
  | .whileLoop condition body, r => by
    simp only [statement, bind_apply, expression_apply, statement_apply body, after_after]
    rfl
  | .function decl, r => by
    simp only [statement, bind_apply, declare_apply, define_apply, function_apply decl, after_after,
      Report.append_empty]
    rfl
  | .returnWith keyword value, r => by
    cases value with
    | none =>
      simp only [statement, bind_apply, get_apply, errorIf_apply, pure_apply, Resolution.statement,
        Option.isSome_none, Bool.and_false]
      show _ = ((), r.after (r.scopes, _ ++ .empty ++ .empty))
      rw [Report.append_empty, Report.append_empty]
      rfl
    | some e =>
      simp only [statement, bind_apply, get_apply, errorIf_apply, expression_apply, after_after,
        Resolution.statement, Option.isSome_some, Bool.and_true]
      rfl
  | .classDecl ⟨name, super?, fieldDecls, methodDecls⟩, r => by
    cases super? with
    | none =>
      simp only [statement, superclass, endSuperclass, bind_apply, pure_apply, get_apply,
        setEnclosing_apply, declare_apply, define_apply, openWord_apply, fields_apply,
        methods_apply methodDecls, endScope_apply, after, Resolution.statement,
        Resolution.superclass, Report.append_empty, Report.append_assoc]
      rfl
    | some s =>
      simp only [statement, superclass, endSuperclass, bind_apply, get_apply, setEnclosing_apply,
        declare_apply, define_apply, errorIf_apply, expression_apply, openWord_apply, fields_apply,
        methods_apply methodDecls, endScope_apply, after, Resolution.statement,
        Resolution.superclass, Report.append_empty, Report.append_assoc]
      rfl
termination_by structural s => s

theorem statements_apply : ∀ (ss : List (Stmt NodeId)) (r : Resolver),
    statements ss r = ((), r.after (Resolution.statements r.routine r.enclosing r.scopes ss))
  | [], r => congrArg (Prod.mk ()) r.after_self.symm
  | s :: rest, r => by
    simp only [statements, bind_apply, statement_apply s, statements_apply rest, after_after]
    rfl
termination_by structural ss => ss

theorem function_apply : ∀ (d : FunctionDecl (Stmt NodeId)) (routine : Routine) (r : Resolver),
    function routine d r =
      ((), r.after (r.scopes, Resolution.function routine r.enclosing r.scopes d))
  | ⟨_, params, _, body⟩, routine, r => by
    have hscopes := ((Resolution.statements_beside body routine r.enclosing
      (Resolution.declareAll (.empty :: r.scopes) params).1).trans
        (Resolution.declareAll_beside _ params)).outer
    simp only [function, bind_apply, get_apply, setRoutine_apply, beginScope_apply, parameters_apply,
      statements_apply body, endScope_apply, after, hscopes, Report.append_assoc]
    rfl
termination_by structural d => d

theorem methods_apply : ∀ (ds : List (FunctionDecl (Stmt NodeId))) (className : Name) (r : Resolver),
    methods className ds r =
      ((), r.after (r.scopes, Resolution.methods r.enclosing r.scopes className ds))
  | [], _, r => congrArg (Prod.mk ()) r.after_self.symm
  | d :: rest, className, r => by
    simp only [methods, bind_apply, function_apply d, methods_apply rest, after_after]
    rfl
termination_by structural ds => ds

end

end Resolver

/-- The report of the walk over a program is the one on statements that stand in no scope. -/
theorem resolve_eq (program : List (Stmt NodeId)) :
    resolve program = (Resolution.statements .none .none [] program).2 := by
  unfold resolve
  rw [Resolver.statements_apply]
  rfl

/-! ## Statement by statement -/

namespace Resolution

variable {routine : Routine} {enclosing : Enclosing}

/-- At the top level no scope is open. -/
theorem statement_top (s : Stmt NodeId) : (statement routine enclosing [] s).1 = [] :=
  List.eq_nil_of_length_eq_zero (statement_beside s routine enclosing []).length

theorem statements_append (p q : List (Stmt NodeId)) :
    (statements routine enclosing [] (p ++ q)).2 =
      (statements routine enclosing [] p).2 ++ (statements routine enclosing [] q).2 := by
  induction p with
  | nil => rfl
  | cons s rest ih =>
    show (statement routine enclosing [] s).2 ++
        (statements routine enclosing (statement routine enclosing [] s).1 (rest ++ q)).2 =
      (statement routine enclosing [] s).2 ++
        (statements routine enclosing (statement routine enclosing [] s).1 rest).2 ++ _
    rw [statement_top, ih, Report.append_assoc]

end Resolution

theorem resolve_append (p q : List (Stmt NodeId)) : resolve (p ++ q) = resolve p ++ resolve q := by
  rw [resolve_eq, resolve_eq, resolve_eq, Resolution.statements_append]

/-- The report on a program is made of those on its statements, each resolved alone. -/
theorem resolve_eq_flatMap (program : List (Stmt NodeId)) :
    (resolve program).errors = program.flatMap (fun s => (resolve [s]).errors) ∧
      (resolve program).notes = program.flatMap fun s => (resolve [s]).notes := by
  induction program with
  | nil => exact ⟨rfl, rfl⟩
  | cons s rest ih =>
    rw [show s :: rest = [s] ++ rest from rfl, resolve_append]
    exact ⟨congrArg _ ih.1, congrArg _ ih.2⟩

/-- Two lists of statements are resolved one after the other as each of them alone: the errors come in
order, and so do the notes. A statement, faulty or not, leaves the stack of scopes as high as it was, with
the same scopes around the innermost one, and the kinds of body and of class around it; what it adds to
the report does not depend on what has been reported before. So every statement of a program is resolved
as if it stood alone. -/
theorem resolve_compositional :
    (∀ p q : List (Stmt NodeId),
      (resolve (p ++ q)).errors = (resolve p).errors ++ (resolve q).errors ∧
      (resolve (p ++ q)).notes = (resolve p).notes ++ (resolve q).notes) ∧
    (∀ (s : Stmt NodeId) (r : Resolver),
      let after := (Resolver.statement s r).2
      after.scopes.length = r.scopes.length ∧ after.scopes.tail = r.scopes.tail ∧
      after.routine = r.routine ∧ after.enclosing = r.enclosing ∧
      after.report =
        r.report ++ (Resolver.statement s { r with report := .empty }).2.report) ∧
    ∀ program : List (Stmt NodeId),
      (resolve program).errors = program.flatMap (fun s => (resolve [s]).errors) ∧
      (resolve program).notes = program.flatMap fun s => (resolve [s]).notes := by
  refine ⟨fun p q => ?_, fun s r => ?_, resolve_eq_flatMap⟩
  · rw [resolve_append]
    exact ⟨rfl, rfl⟩
  · have hscopes := Resolution.statement_beside s r.routine r.enclosing r.scopes
    rw [Resolver.statement_apply, Resolver.statement_apply]
    exact ⟨hscopes.length, hscopes.outer, rfl, rfl, rfl⟩

end ClassScript
