import ClassScript.Proofs.Places
import ClassScript.Proofs.Relabel

/-!
# Numbering and resolving relabelled programs

A program on other lines that is numbered from another number on is relabelled
(`Stmt.numberAll_relabel`), and so is the report on it (`resolve_relabel`): the same errors on other
lines, and the same distances for other numbers.
-/

set_option autoImplicit false

namespace ClassScript

/-! ## Numbering -/

section

variable {ι κ α β γ δ : Type} {σ : Relabel ι κ} {ρ : Relabel NodeId NodeId}

/-- From any two numbers on that the relabelling takes into each other with all that follow, the
second count gives what the first one does, relabelled, and counts as far. -/
def Shifted (ρ : Relabel NodeId NodeId) (x : StateM NodeId α) (y : StateM NodeId β) (g : α → β) :
    Prop :=
  ∀ n n' : NodeId, (∀ i, ρ.use (n + i) = n' + i) →
    (y.run n').1 = g (x.run n).1 ∧ ∃ k, (x.run n).2 = n + k ∧ (y.run n').2 = n' + k

namespace Shifted

variable {x : StateM NodeId α} {y : StateM NodeId β} {g : α → β}

theorem pure {a : α} {b : β} (h : b = g a) :
    Shifted ρ (Pure.pure a : StateM NodeId α) (Pure.pure b) g :=
  fun _ _ _ => ⟨h, 0, rfl, rfl⟩

theorem bind {u : α → StateM NodeId γ} {v : β → StateM NodeId δ} {g' : γ → δ}
    (h : Shifted ρ x y g) (hu : ∀ a, Shifted ρ (u a) (v (g a)) g') :
    Shifted ρ (x >>= u) (y >>= v) g' := by
  intro n n' hn
  obtain ⟨hv, k, hk, hk'⟩ := h n n' hn
  have hnext : ∀ i, ρ.use ((x.run n).2 + i) = (y.run n').2 + i := by
    intro i
    rw [hk, hk', Nat.add_assoc, Nat.add_assoc, hn]
  obtain ⟨hv', j, hj, hj'⟩ := hu (x.run n).1 _ _ hnext
  rw [← hv] at hv' hj'
  refine ⟨hv', k + j, ?_, ?_⟩
  · show ((u (x.run n).1).run (x.run n).2).2 = _
    rw [hj, hk, Nat.add_assoc]
  · show ((v (y.run n').1).run (y.run n').2).2 = _
    rw [hj', hk', Nat.add_assoc]

theorem nextId : Shifted ρ ClassScript.nextId ClassScript.nextId ρ.use :=
  fun _ _ hn => ⟨(hn 0).symm, 1, rfl, rfl⟩

end Shifted

mutual

theorem Expr.number_relabel (h : σ.line = ρ.line) : ∀ e : Expr ι,
    Shifted ρ e.number (e.relabel σ).number (Expr.relabel ρ)
  | .literal _ => .pure rfl
  | .unary _ operand =>
    (Expr.number_relabel h operand).bind fun _ => .pure (by rw [Expr.relabel, h])
  | .suffixed operand _ =>
    (Expr.number_relabel h operand).bind fun _ => .pure (by rw [Expr.relabel, h])
  | .binary left _ right =>
    (Expr.number_relabel h left).bind fun _ => (Expr.number_relabel h right).bind fun _ =>
      .pure (by rw [Expr.relabel, h])
  | .logical left _ right =>
    (Expr.number_relabel h left).bind fun _ => (Expr.number_relabel h right).bind fun _ =>
      .pure (by rw [Expr.relabel, h])
  | .grouping inner => (Expr.number_relabel h inner).bind fun _ => .pure rfl
  | .variable _ _ => Shifted.nextId.bind fun _ => .pure (by rw [Expr.relabel, h])
  | .assign _ _ value =>
    Shifted.nextId.bind fun _ => (Expr.number_relabel h value).bind fun _ =>
      .pure (by rw [Expr.relabel, h])
  | .call callee _ arguments =>
    (Expr.number_relabel h callee).bind fun _ => (Expr.numberAll_relabel h arguments).bind fun _ =>
      .pure (by rw [Expr.relabel, h])
  | .get object _ => (Expr.number_relabel h object).bind fun _ => .pure (by rw [Expr.relabel, h])
  | .set object _ value =>
    (Expr.number_relabel h object).bind fun _ => (Expr.number_relabel h value).bind fun _ =>
      .pure (by rw [Expr.relabel, h])
  | .this _ _ => Shifted.nextId.bind fun _ => .pure (by rw [Expr.relabel, h])
  | .super _ _ _ => Shifted.nextId.bind fun _ => .pure (by rw [Expr.relabel, h])
termination_by structural e => e

theorem Expr.numberAll_relabel (h : σ.line = ρ.line) : ∀ es : List (Expr ι),
    Shifted ρ (Expr.numberAll es) (Expr.numberAll (Expr.relabelAll σ es)) (Expr.relabelAll ρ)
  | [] => .pure rfl
  | e :: rest =>
    (Expr.number_relabel h e).bind fun _ => (Expr.numberAll_relabel h rest).bind fun _ => .pure rfl
termination_by structural es => es

end

theorem Expr.numberOption_relabel (h : σ.line = ρ.line) (e : Option (Expr ι)) :
    Shifted ρ (Expr.numberOption e) (Expr.numberOption (e.map (Expr.relabel σ)))
      (Option.map (Expr.relabel ρ)) := by
  cases e with
  | none => exact .pure rfl
  | some e => exact (Expr.number_relabel h e).bind fun _ => .pure rfl

theorem VarDecl.number_relabel (h : σ.line = ρ.line) (d : VarDecl ι) :
    Shifted ρ d.number (d.relabel σ).number (VarDecl.relabel ρ) :=
  (Expr.numberOption_relabel h d.initializer).bind fun _ => .pure (by simp only [VarDecl.relabel, h])

theorem VarDecl.numberAll_relabel (h : σ.line = ρ.line) (ds : List (VarDecl ι)) :
    Shifted ρ (VarDecl.numberAll ds) (VarDecl.numberAll (ds.map (VarDecl.relabel σ)))
      (List.map (VarDecl.relabel ρ)) := by
  induction ds with
  | nil => exact .pure rfl
  | cons d rest ih =>
    exact (VarDecl.number_relabel h d).bind fun _ => ih.bind fun _ => .pure rfl

theorem SuperclassRef.numberOption_relabel (h : σ.line = ρ.line) (s : Option (SuperclassRef ι)) :
    Shifted ρ (SuperclassRef.numberOption s)
      (SuperclassRef.numberOption (s.map (SuperclassRef.relabel σ)))
      (Option.map (SuperclassRef.relabel ρ)) := by
  cases s with
  | none => exact .pure rfl
  | some s =>
    exact Shifted.nextId.bind fun _ => .pure (by simp only [SuperclassRef.relabel, h, Option.map_some])

mutual

theorem Stmt.number_relabel (h : σ.line = ρ.line) : ∀ s : Stmt ι,
    Shifted ρ s.number (s.relabel σ).number (Stmt.relabel ρ)
  | .expression value => (Expr.number_relabel h value).bind fun _ => .pure rfl
  | .print value => (Expr.number_relabel h value).bind fun _ => .pure rfl
  | .var decl => (VarDecl.number_relabel h decl).bind fun _ => .pure rfl
  | .block body => (Stmt.numberAll_relabel h body).bind fun _ => .pure rfl
  | .ifThen condition thenBranch =>
    (Expr.number_relabel h condition).bind fun _ => (Stmt.number_relabel h thenBranch).bind fun _ =>
      .pure rfl
  | .ifElse condition thenBranch elseBranch =>
    (Expr.number_relabel h condition).bind fun _ => (Stmt.number_relabel h thenBranch).bind fun _ =>
      (Stmt.number_relabel h elseBranch).bind fun _ => .pure rfl
  | .whileLoop condition body =>
    (Expr.number_relabel h condition).bind fun _ => (Stmt.number_relabel h body).bind fun _ =>
      .pure rfl
  | .function decl => (Stmt.numberRoutine_relabel h decl).bind fun _ => .pure rfl
  | .returnWith _ value =>
    (Expr.numberOption_relabel h value).bind fun _ => .pure (by rw [Stmt.relabel, h])
  | .classDecl ⟨_, superclass, fields, methods⟩ =>
    (SuperclassRef.numberOption_relabel h superclass).bind fun _ =>
      (VarDecl.numberAll_relabel h fields).bind fun _ =>
        (Stmt.numberRoutines_relabel h methods).bind fun _ => .pure (by rw [Stmt.relabel, h])
termination_by structural s => s

theorem Stmt.numberAll_relabel (h : σ.line = ρ.line) : ∀ ss : List (Stmt ι),
    Shifted ρ (Stmt.numberAll ss) (Stmt.numberAll (Stmt.relabelAll σ ss)) (Stmt.relabelAll ρ)
  | [] => .pure rfl
  | s :: rest =>
    (Stmt.number_relabel h s).bind fun _ => (Stmt.numberAll_relabel h rest).bind fun _ => .pure rfl
termination_by structural ss => ss

theorem Stmt.numberRoutine_relabel (h : σ.line = ρ.line) : ∀ d : FunctionDecl (Stmt ι),
    Shifted ρ (Stmt.numberRoutine d) (Stmt.numberRoutine (Stmt.relabelRoutine σ d))
      (Stmt.relabelRoutine ρ)
  | ⟨_, _, _, body⟩ =>
    (Stmt.numberAll_relabel h body).bind fun _ => .pure (by rw [Stmt.relabelRoutine, h])
termination_by structural d => d

theorem Stmt.numberRoutines_relabel (h : σ.line = ρ.line) : ∀ ds : List (FunctionDecl (Stmt ι)),
    Shifted ρ (Stmt.numberRoutines ds) (Stmt.numberRoutines (Stmt.relabelRoutines σ ds))
      (Stmt.relabelRoutines ρ)
  | [] => .pure rfl
  | d :: rest =>
    (Stmt.numberRoutine_relabel h d).bind fun _ => (Stmt.numberRoutines_relabel h rest).bind fun _ =>
      .pure rfl
termination_by structural ds => ds

end

end

/-! ## Resolving -/

namespace Report

/-- The report with other lines and numbers. -/
def relabel (ρ : Relabel NodeId NodeId) (r : Report) : Report :=
  ⟨r.errors.map fun e => ⟨e.cause, e.name.onLine ρ.line⟩,
    r.notes.map fun n => (ρ.use n.1, n.2)⟩

variable (ρ : Relabel NodeId NodeId)

theorem relabel_append (a b : Report) : (a ++ b).relabel ρ = a.relabel ρ ++ b.relabel ρ := by
  show Report.mk ((a.errors ++ b.errors).map _) ((a.notes ++ b.notes).map _) = Report.mk _ _
  rw [List.map_append, List.map_append]
  rfl

theorem relabel_errorIf (condition : Bool) (cause : ScopeCause) (name : Name) :
    (errorIf condition cause name).relabel ρ = errorIf condition cause (name.onLine ρ.line) := by
  cases condition <;> rfl

end Report

namespace Resolution

variable (ρ : Relabel NodeId NodeId)

theorem note_relabel (scopes : Scopes) (id : NodeId) (name : Name) :
    (note scopes id name).relabel ρ = note scopes (ρ.use id) (name.onLine ρ.line) := by
  unfold note
  rw [Name.text_onLine]
  cases depth? name.text scopes <;> rfl

theorem declare_relabel (scopes : Scopes) (name : Name) :
    declare scopes (name.onLine ρ.line) =
      ((declare scopes name).1, (declare scopes name).2.relabel ρ) := by
  cases scopes with
  | nil => rfl
  | cons scope outer =>
    unfold declare
    rw [Name.text_onLine]
    dsimp only
    cases scope.contains name.text <;> rfl

theorem define_relabel (scopes : Scopes) (name : Name) :
    define scopes (name.onLine ρ.line) = define scopes name := rfl

theorem declareAndDefine_relabel (scopes : Scopes) (name : Name) :
    declareAndDefine scopes (name.onLine ρ.line) =
      ((declareAndDefine scopes name).1, (declareAndDefine scopes name).2.relabel ρ) := by
  unfold declareAndDefine
  rw [declare_relabel]
  rfl

theorem declareAll_relabel (scopes : Scopes) (params : List Param) :
    declareAll scopes (params.map (Param.onLine ρ.line)) =
      ((declareAll scopes params).1, (declareAll scopes params).2.relabel ρ) := by
  induction params generalizing scopes with
  | nil => rfl
  | cons p rest ih =>
    simp only [List.map_cons, declareAll, Param.name_onLine, declareAndDefine_relabel, ih,
      Report.relabel_append]

mutual

theorem expression_relabel (enclosing : Enclosing) (scopes : Scopes) : ∀ e : Expr NodeId,
    expression enclosing scopes (e.relabel ρ) = (expression enclosing scopes e).relabel ρ
  | .literal _ => rfl
  | .unary _ operand => expression_relabel enclosing scopes operand
  | .suffixed operand _ => expression_relabel enclosing scopes operand
  | .binary left _ right => by
    simp only [Expr.relabel, expression, Report.relabel_append,
      expression_relabel enclosing scopes left, expression_relabel enclosing scopes right]
  | .logical left _ right => by
    simp only [Expr.relabel, expression, Report.relabel_append,
      expression_relabel enclosing scopes left, expression_relabel enclosing scopes right]
  | .grouping inner => expression_relabel enclosing scopes inner
  | .variable id name => by
    simp only [Expr.relabel, expression, Report.relabel_append, Report.relabel_errorIf, note_relabel]
    rfl
  | .assign id name value => by
    simp only [Expr.relabel, expression, Report.relabel_append, note_relabel,
      expression_relabel enclosing scopes value]
  | .call callee _ arguments => by
    simp only [Expr.relabel, expression, Report.relabel_append,
      expression_relabel enclosing scopes callee, expressions_relabel enclosing scopes arguments]
  | .get object _ => expression_relabel enclosing scopes object
  | .set object _ value => by
    simp only [Expr.relabel, expression, Report.relabel_append,
      expression_relabel enclosing scopes object, expression_relabel enclosing scopes value]
  | .this id keyword => by
    cases enclosing with
    | none => rfl
    | baseClass => exact (note_relabel ρ scopes id keyword).symm
    | subclass => exact (note_relabel ρ scopes id keyword).symm
  | .super id keyword _ => by
    cases enclosing with
    | none => rfl
    | baseClass => rfl
    | subclass => exact (note_relabel ρ scopes id keyword).symm
termination_by structural e => e

theorem expressions_relabel (enclosing : Enclosing) (scopes : Scopes) : ∀ es : List (Expr NodeId),
    expressions enclosing scopes (Expr.relabelAll ρ es) =
      (expressions enclosing scopes es).relabel ρ
  | [] => rfl
  | e :: rest => by
    simp only [Expr.relabelAll, expressions, Report.relabel_append,
      expression_relabel enclosing scopes e, expressions_relabel enclosing scopes rest]
termination_by structural es => es

end

theorem expressionOption_relabel (enclosing : Enclosing) (scopes : Scopes)
    (e : Option (Expr NodeId)) :
    expressionOption enclosing scopes (e.map (Expr.relabel ρ)) =
      (expressionOption enclosing scopes e).relabel ρ := by
  cases e with
  | none => rfl
  | some e => exact expression_relabel ρ enclosing scopes e

theorem fields_relabel (enclosing : Enclosing) (scopes : Scopes) (ds : List (VarDecl NodeId)) :
    fields enclosing scopes (ds.map (VarDecl.relabel ρ)) =
      (fields enclosing scopes ds).relabel ρ := by
  induction ds with
  | nil => rfl
  | cons d rest ih =>
    simp only [List.map_cons, fields, Report.relabel_append, ih, VarDecl.relabel,
      expressionOption_relabel]

theorem superclass_relabel (scopes : Scopes) (name : Name) (s : Option (SuperclassRef NodeId)) :
    superclass scopes (name.onLine ρ.line) (s.map (SuperclassRef.relabel ρ)) =
      (superclass scopes name s).relabel ρ := by
  cases s with
  | none => rfl
  | some s =>
    simp only [Option.map_some, superclass, Report.relabel_append, Report.relabel_errorIf,
      ← expression_relabel]
    rfl

theorem enclosingOf_relabel (s : Option (SuperclassRef NodeId)) :
    enclosingOf (s.map (SuperclassRef.relabel ρ)) = enclosingOf s := by
  cases s <;> rfl

theorem classScopes_relabel (scopes : Scopes) (s : Option (SuperclassRef NodeId)) :
    classScopes scopes (s.map (SuperclassRef.relabel ρ)) = classScopes scopes s := by
  cases s <;> rfl

mutual

theorem statement_relabel : ∀ (s : Stmt NodeId) (routine : Routine) (enclosing : Enclosing)
    (scopes : Scopes), statement routine enclosing scopes (s.relabel ρ) =
      ((statement routine enclosing scopes s).1,
        (statement routine enclosing scopes s).2.relabel ρ)
  | .expression value, _, enclosing, scopes =>
    congrArg (Prod.mk scopes) (expression_relabel ρ enclosing scopes value)
  | .print value, _, enclosing, scopes =>
    congrArg (Prod.mk scopes) (expression_relabel ρ enclosing scopes value)
  | .var decl, _, enclosing, scopes => by
    simp only [Stmt.relabel, VarDecl.relabel, statement, declare_relabel, define_relabel,
      expressionOption_relabel, Report.relabel_append]
  | .block body, routine, enclosing, scopes => by
    simp only [Stmt.relabel, statement, statements_relabel body]
  | .ifThen condition thenBranch, routine, enclosing, scopes => by
    simp only [Stmt.relabel, statement, statement_relabel thenBranch, expression_relabel,
      Report.relabel_append]
  | .ifElse condition thenBranch elseBranch, routine, enclosing, scopes => by
    simp only [Stmt.relabel, statement, statement_relabel thenBranch, statement_relabel elseBranch,
      expression_relabel, Report.relabel_append]
  | .whileLoop condition body, routine, enclosing, scopes => by
    simp only [Stmt.relabel, statement, statement_relabel body, expression_relabel,
      Report.relabel_append]
  | .function ⟨name, params, result, body⟩, _, enclosing, scopes => by
    have hbody := function_relabel ⟨name, params, result, body⟩
    simp only [Stmt.relabelRoutine] at hbody
    simp only [Stmt.relabel, Stmt.relabelRoutine, statement, declareAndDefine_relabel, hbody,
      Report.relabel_append]
  | .returnWith keyword value, routine, enclosing, scopes => by
    simp only [Stmt.relabel, statement, Report.relabel_errorIf, expressionOption_relabel,
      Report.relabel_append, Option.isSome_map]
  | .classDecl ⟨name, super?, fieldDecls, methodDecls⟩, _, enclosing, scopes => by
    simp only [Stmt.relabel, statement, declareAndDefine_relabel, superclass_relabel,
      enclosingOf_relabel, classScopes_relabel, fields_relabel, methods_relabel methodDecls,
      Report.relabel_append]
termination_by structural s => s

theorem statements_relabel : ∀ (ss : List (Stmt NodeId)) (routine : Routine)
    (enclosing : Enclosing) (scopes : Scopes),
    statements routine enclosing scopes (Stmt.relabelAll ρ ss) =
      ((statements routine enclosing scopes ss).1,
        (statements routine enclosing scopes ss).2.relabel ρ)
  | [], _, _, _ => rfl
  | s :: rest, routine, enclosing, scopes => by
    simp only [Stmt.relabelAll, statements, statement_relabel s, statements_relabel rest,
      Report.relabel_append]
termination_by structural ss => ss

theorem function_relabel : ∀ (d : FunctionDecl (Stmt NodeId)) (routine : Routine)
    (enclosing : Enclosing) (scopes : Scopes),
    function routine enclosing scopes (Stmt.relabelRoutine ρ d) =
      (function routine enclosing scopes d).relabel ρ
  | ⟨_, params, _, body⟩, routine, enclosing, scopes => by
    simp only [Stmt.relabelRoutine, function, declareAll_relabel, statements_relabel body,
      Report.relabel_append]
termination_by structural d => d

theorem methods_relabel : ∀ (ds : List (FunctionDecl (Stmt NodeId))) (enclosing : Enclosing)
    (scopes : Scopes) (className : Name),
    methods enclosing scopes (className.onLine ρ.line) (Stmt.relabelRoutines ρ ds) =
      (methods enclosing scopes className ds).relabel ρ
  | [], _, _, _ => rfl
  | ⟨name, params, result, body⟩ :: rest, enclosing, scopes, className => by
    have hfirst := function_relabel ⟨name, params, result, body⟩
    simp only [Stmt.relabelRoutine] at hfirst
    simp only [Stmt.relabelRoutines, Stmt.relabelRoutine, methods, hfirst, methods_relabel rest,
      Report.relabel_append]
    rfl
termination_by structural ds => ds

end

end Resolution

theorem resolve_relabel (ρ : Relabel NodeId NodeId) (program : List (Stmt NodeId)) :
    resolve (Stmt.relabelAll ρ program) = (resolve program).relabel ρ := by
  rw [resolve_eq, resolve_eq, Resolution.statements_relabel]

end ClassScript
