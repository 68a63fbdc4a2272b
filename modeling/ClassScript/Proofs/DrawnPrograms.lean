import ClassScript.Proofs.DrawnLabels

/-!
# The labels of programs that are read

The rules for declarations and statements draw labels like those for expressions. So a whole parse with
labels answers as the parse without labels, and the labels of its program are among those that it has
drawn, each at most once (`Parser.parseFrom_draws`).
-/

set_option autoImplicit false

namespace ClassScript

/-! ## Labels -/

section

variable {ι : Type}

/-- The labels of a variable or a field. -/
def VarDecl.labels (d : VarDecl ι) : List ι :=
  Expr.labelsOption d.initializer

/-- The label of the use of a superclass. -/
def SuperclassRef.labels (s : Option (SuperclassRef ι)) : List ι :=
  s.toList.map (·.id)

/-- The labels of a statement. -/
def Stmt.labels (s : Stmt ι) : List ι :=
  s.occurrences.map (·.id)

/-- The labels of statements. -/
def Stmt.labelsAll (ss : List (Stmt ι)) : List ι :=
  ss.flatMap Stmt.labels

/-- The labels of a statement that may be missing. -/
def Stmt.labelsOption (s : Option (Stmt ι)) : List ι :=
  s.toList.flatMap Stmt.labels

/-- The labels of a function or a method. -/
def Stmt.labelsRoutine (d : FunctionDecl (Stmt ι)) : List ι :=
  Stmt.labelsAll d.body

/-- The labels of the clauses of a loop. -/
def Grammar.ForClauses.labels (c : Grammar.ForClauses ι) : List ι :=
  Stmt.labelsOption c.initializer ++ (Expr.labelsOption c.condition ++ Expr.labelsOption c.increment)

/-- The labels of a member of a class. -/
def Parser.Member.labels : Parser.Member ι → List ι
  | .field d => d.labels
  | .method d => Stmt.labelsRoutine d

/-- The labels of fields and methods. -/
def Grammar.Members.labels (ms : Grammar.Members ι) : List ι :=
  ms.1.flatMap VarDecl.labels ++ ms.2.flatMap Stmt.labelsRoutine

theorem Expr.map_occurrencesOption (e : Option (Expr ι)) :
    (Expr.occurrencesOption e).map (·.id) = Expr.labelsOption e := by
  cases e with
  | none => rfl
  | some e => exact (List.append_nil _).symm

theorem Stmt.map_occurrencesAll (ss : List (Stmt ι)) :
    (Stmt.occurrencesAll ss).map (·.id) = Stmt.labelsAll ss := by
  induction ss with
  | nil => rfl
  | cons s rest ih =>
    rw [Stmt.occurrencesAll, List.map_append, ih]
    rfl

theorem Stmt.map_occurrencesRoutine (d : FunctionDecl (Stmt ι)) :
    (Stmt.occurrencesRoutine d).map (·.id) = Stmt.labelsRoutine d := by
  obtain ⟨_, _, _, body⟩ := d
  exact Stmt.map_occurrencesAll body

theorem Expr.labels_literal (value : Literal) : (Expr.literal value : Expr ι).labels = [] :=
  rfl

theorem Stmt.labels_expression (e : Expr ι) : (Stmt.expression e).labels = e.labels :=
  rfl

theorem Stmt.labels_var (d : VarDecl ι) : (Stmt.var d).labels = d.labels :=
  Expr.map_occurrencesOption d.initializer

theorem Stmt.labels_block (body : List (Stmt ι)) : (Stmt.block body).labels = Stmt.labelsAll body :=
  Stmt.map_occurrencesAll body

theorem Stmt.labels_ifThen (condition : Expr ι) (thenBranch : Stmt ι) :
    (Stmt.ifThen condition thenBranch).labels = condition.labels ++ thenBranch.labels :=
  List.map_append

theorem Stmt.labels_ifElse (condition : Expr ι) (thenBranch elseBranch : Stmt ι) :
    (Stmt.ifElse condition thenBranch elseBranch).labels =
      condition.labels ++ thenBranch.labels ++ elseBranch.labels := by
  rw [← Stmt.labels_ifThen]
  exact List.map_append

theorem Stmt.labels_whileLoop (condition : Expr ι) (body : Stmt ι) :
    (Stmt.whileLoop condition body).labels = condition.labels ++ body.labels :=
  List.map_append

theorem Stmt.labels_function (d : FunctionDecl (Stmt ι)) :
    (Stmt.function d).labels = Stmt.labelsRoutine d :=
  Stmt.map_occurrencesRoutine d

theorem Stmt.labels_classDecl (name : Name) (superclass : Option (SuperclassRef ι))
    (ms : Grammar.Members ι) :
    (Stmt.classDecl ⟨name, superclass, ms.1, ms.2⟩).labels =
      SuperclassRef.labels superclass ++ ms.labels := by
  have hsuper : (SuperclassRef.occurrences superclass).map (·.id) =
      SuperclassRef.labels superclass := by cases superclass <;> rfl
  have hfields : (VarDecl.occurrencesAll ms.1).map (·.id) = ms.1.flatMap VarDecl.labels := by
    rw [VarDecl.occurrencesAll, List.map_flatMap]
    exact congrArg (List.flatMap · ms.1) (funext fun d => Expr.map_occurrencesOption d.initializer)
  have hmethods : (Stmt.occurrencesRoutines ms.2).map (·.id) =
      ms.2.flatMap Stmt.labelsRoutine := by
    induction ms.2 with
    | nil => rfl
    | cons d rest ih =>
      rw [Stmt.occurrencesRoutines, List.map_append, ih, Stmt.map_occurrencesRoutine]
      rfl
  rw [Stmt.labels, Stmt.occurrences, List.map_append, List.map_append, hsuper, hfields, hmethods,
    List.append_assoc]
  rfl

theorem Stmt.labelsOption_some (s : Stmt ι) : Stmt.labelsOption (some s) = s.labels :=
  List.append_nil _

/-- The statements that are there have all the labels. -/
theorem Stmt.labelsAll_filterMap (found : List (Option (Stmt ι))) :
    Stmt.labelsAll (found.filterMap id) = found.flatMap Stmt.labelsOption := by
  induction found with
  | nil => rfl
  | cons first rest ih =>
    rw [List.flatMap_cons, ← ih]
    cases first with
    | none => rfl
    | some s =>
      rw [Stmt.labelsOption_some]
      rfl

theorem Stmt.relabelAll_filterMap {κ : Type} (ρ : Relabel ι κ) (found : List (Option (Stmt ι))) :
    Stmt.relabelAll ρ (found.filterMap id) =
      (found.map (Option.map (Stmt.relabel ρ))).filterMap id := by
  rw [Stmt.relabelAll_eq, List.map_filterMap, List.filterMap_map]
  rfl

/-- A loop as it is read has the labels of its clauses and of its body. -/
theorem Grammar.ForClauses.labels_loop (c : Grammar.ForClauses ι) (body : Stmt ι) :
    (c.loop body).labels = Stmt.labelsOption c.initializer ++
      (Expr.labelsOption c.condition ++ (body.labels ++ Expr.labelsOption c.increment)) := by
  obtain ⟨first, condition, increment⟩ := c
  cases first <;> cases condition <;> cases increment <;>
    simp [loop, Stmt.labels_block, Stmt.labels_whileLoop, Stmt.labels_expression, Stmt.labelsAll,
      Stmt.labelsOption, Expr.labelsOption, Expr.labels_literal]

end

/-- Without labels a function has another body. -/
theorem Stmt.relabelRoutine_bare {ι : Type} (d : FunctionDecl (Stmt ι)) :
    Stmt.relabelRoutine .bare d = ⟨d.name, d.params, d.result, Stmt.relabelAll .bare d.body⟩ := by
  have hparams : d.params.map (Param.onLine fun line => line) = d.params := List.map_id' d.params
  rw [Stmt.relabelRoutine_eq]
  exact congrArg₂ (FunctionDecl.mk _ · · _) hparams (Token.onLineOption_same d.result)

/-- The member with other lines and labels. -/
def Parser.Member.relabel {ι κ : Type} (ρ : Relabel ι κ) : Parser.Member ι → Parser.Member κ
  | .field d => .field (d.relabel ρ)
  | .method d => .method (Stmt.relabelRoutine ρ d)

/-- Fields and methods with other lines and labels. -/
def Grammar.Members.relabel {ι κ : Type} (ρ : Relabel ι κ) (ms : Grammar.Members ι) :
    Grammar.Members κ :=
  (ms.1.map (VarDecl.relabel ρ), Stmt.relabelRoutines ρ ms.2)

namespace Parser

/-! ## Declarations of variables -/

theorem typeName_same : Same typeName typeName :=
  peek_same.bind fun _ => .ite advance_same (fail_draws _)

theorem typeName?_same : Same typeName? typeName? :=
  (accept_same _).choose (typeName_same.bind fun _ => same_pure _) (same_pure none)

theorem initializer?_draws (depth : Nat) :
    Draws [] (Option.map (Expr.relabel .bare)) Expr.labelsOption (initializer? depth)
      (initializer? depth) :=
  (accept_same _).choose
    ((expression_draws depth).andThen fun e => .pure rfl (labelsOption_some e ▸ List.Subperm.refl _))
    (.pure rfl List.nil_subperm)

theorem varDeclaration_draws (depth : Nat) :
    Draws [] (VarDecl.relabel .bare) VarDecl.labels (varDeclaration depth) (varDeclaration depth) :=
  (consume_same _ _).bind fun _ => typeName?_same.bind fun type =>
    (initializer?_draws depth).andThen fun _ => (consume_same _ _).bind fun _ =>
      .pure (congrArg (VarDecl.mk _ · _) (Token.onLineOption_same type)) (List.Subperm.refl _)

/-! ## Headers -/

theorem parameter_same : Same parameter parameter :=
  (consume_same _ _).bind fun _ => (consume_same _ _).bind fun _ => typeName_same.bind fun _ =>
    same_pure _

theorem parameterList_same (depth count : Nat) :
    Same (parameterList depth count) (parameterList depth count) := by
  induction depth generalizing count with
  | zero => exact .crash _
  | succ depth ih =>
    exact .ite (fail_draws _) <| parameter_same.bind fun _ =>
      (accept_same _).choose ((ih (count + 1)).bind fun _ => same_pure _) (same_pure _)

theorem closeParameters_same (found : List Param) :
    Same (closeParameters found) (closeParameters found) :=
  (consume_same _ _).bind fun _ => same_pure _

theorem parameters_same (depth : Nat) : Same (parameters depth) (parameters depth) :=
  (check_same _).choose (closeParameters_same [])
    ((parameterList_same depth 0).bind fun found => closeParameters_same found)

theorem header_same (depth : Nat) (kind : RoutineKind) :
    Same (header depth kind) (header depth kind) :=
  (consume_same _ _).bind fun _ => (consume_same _ _).bind fun _ => (parameters_same depth).bind fun _ =>
    typeName?_same.bind fun _ => (consume_same _ _).bind fun _ => same_pure _

theorem superclass?_draws :
    Draws [] (Option.map (SuperclassRef.relabel .bare)) SuperclassRef.labels superclass?
      (superclass? : Rule _) :=
  (accept_same _).choose
    ((consume_same _ _).bind fun _ => fresh_draws.bind fun i => .pure rfl (List.Subperm.refl [i]))
    (.pure rfl List.nil_subperm)

theorem classHeader_draws :
    Draws [] (fun v => (v.1, v.2.map (SuperclassRef.relabel .bare)))
      (fun v => SuperclassRef.labels v.2) classHeader (classHeader : Rule _) :=
  (consume_same _ _).bind fun _ => superclass?_draws.andThen fun _ => (consume_same _ _).bind fun _ =>
    .pure rfl (List.Subperm.refl _)

/-! ## Simple statements -/

theorem expressionStatement_draws (depth : Nat) :
    Draws [] (Stmt.relabel .bare) Stmt.labels (expressionStatement depth)
      (expressionStatement depth) :=
  (expression_draws depth).andThen fun _ => (consume_same _ _).bind fun _ =>
    .pure rfl (List.Subperm.refl _)

theorem printStatement_draws (depth : Nat) :
    Draws [] (Stmt.relabel .bare) Stmt.labels (printStatement depth) (printStatement depth) :=
  (expression_draws depth).andThen fun _ => (consume_same _ _).bind fun _ =>
    .pure rfl (List.Subperm.refl _)

theorem expressionUntil_draws (depth : Nat) (close : Symbol) (cause : SyntaxCause) :
    Draws [] (Option.map (Expr.relabel .bare)) Expr.labelsOption (expressionUntil depth close cause)
      (expressionUntil depth close cause) :=
  (check_same _).choose
    ((consume_same _ _).bind fun _ => .pure rfl List.nil_subperm)
    ((expression_draws depth).andThen fun e => (consume_same _ _).bind fun _ =>
      .pure rfl (labelsOption_some e ▸ List.Subperm.refl _))

theorem returnStatement_draws (depth : Nat) :
    Draws [] (Stmt.relabel .bare) Stmt.labels (returnStatement depth) (returnStatement depth) :=
  previous_same.bind fun _ => (expressionUntil_draws depth _ _).andThen fun value =>
    .pure rfl (Expr.map_occurrencesOption value ▸ List.Subperm.refl _)

theorem condition_draws (depth : Nat) (opening closing : SyntaxCause) :
    Draws [] (Expr.relabel .bare) Expr.labels (condition depth opening closing)
      (condition depth opening closing) :=
  (consume_same _ _).bind fun _ => (expression_draws depth).andThen fun _ =>
    (consume_same _ _).bind fun _ => .pure rfl (List.Subperm.refl _)

theorem forInitializer_draws (depth : Nat) :
    Draws [] (Option.map (Stmt.relabel .bare)) Stmt.labelsOption (forInitializer depth)
      (forInitializer depth) :=
  (accept_same _).choose (.pure rfl List.nil_subperm) <| (accept_same _).choose
    ((varDeclaration_draws depth).andThen fun d => .pure rfl <| by
      rw [Stmt.labelsOption_some, Stmt.labels_var])
    ((expressionStatement_draws depth).andThen fun s => .pure rfl <| by
      rw [Stmt.labelsOption_some])

theorem forClauses_draws (depth : Nat) :
    Draws [] (Grammar.ForClauses.relabel .bare) Grammar.ForClauses.labels (forClauses depth)
      (forClauses depth) :=
  (consume_same _ _).bind fun _ => (forInitializer_draws depth).bind fun first =>
    (expressionUntil_draws depth _ _).bind fun condition =>
      (expressionUntil_draws depth _ _).bind fun increment => .pure rfl <| subperm_of_count fun i => by
        simp only [Grammar.ForClauses.labels, List.count_append, List.count_nil]
        omega

/-! ## Statements and declarations -/

theorem isBodyEnd_same : Same isBodyEnd isBodyEnd :=
  (check_same _).choose (same_pure true) isAtEnd_same

theorem closeBlock_draws (found : List (Option (Stmt NodeId))) :
    Draws (found.flatMap Stmt.labelsOption) (Stmt.relabelAll .bare) Stmt.labelsAll (closeBlock found)
      (closeBlock (found.map (Option.map (Stmt.relabel .bare)))) :=
  (consume_same _ _).bind fun _ => .pure (Stmt.relabelAll_filterMap _ found) <| by
    rw [Stmt.labelsAll_filterMap, List.nil_append]

theorem split_relabel {ι κ : Type} (ρ : Relabel ι κ) (found : List (Member ι)) :
    Grammar.Members.relabel ρ (Member.split found) = Member.split (found.map (Member.relabel ρ)) := by
  induction found with
  | nil => rfl
  | cons first rest ih =>
    rw [List.map_cons]
    cases first with
    | field d => exact congrArg (fun ms : Grammar.Members κ => (d.relabel ρ :: ms.1, ms.2)) ih
    | method d =>
      exact congrArg (fun ms : Grammar.Members κ => (ms.1, Stmt.relabelRoutine ρ d :: ms.2)) ih

theorem count_labels_split (found : List (Member NodeId)) (i : NodeId) :
    (Member.split found).labels.count i = (found.flatMap Member.labels).count i := by
  induction found with
  | nil => rfl
  | cons first rest ih =>
    rw [List.flatMap_cons, List.count_append, ← ih]
    cases first with
    | field d =>
      show ((d.labels ++ (Member.split rest).1.flatMap VarDecl.labels) ++ _).count i = _
      rw [List.append_assoc, List.count_append]
      rfl
    | method d =>
      show (_ ++ (Stmt.labelsRoutine d ++ (Member.split rest).2.flatMap Stmt.labelsRoutine)).count i = _
      simp only [Grammar.Members.labels, List.count_append, Member.labels]
      exact Nat.add_left_comm _ _ _

theorem closeMembers_draws (found : List (Member NodeId)) :
    Draws (found.flatMap Member.labels) (Grammar.Members.relabel .bare) Grammar.Members.labels
      (closeMembers found) (closeMembers (found.map (Member.relabel .bare))) :=
  (consume_same _ _).bind fun _ => .pure (split_relabel _ found) <|
    subperm_of_count fun i => Nat.le_of_eq (count_labels_split found i)

mutual

theorem statement_draws : ∀ depth,
    Draws [] (Stmt.relabel .bare) Stmt.labels (statement depth) (statement depth)
  | 0 => .crash _
  | depth + 1 =>
    (accept_same _).choose
      ((forClauses_draws depth).bind fun clauses => (statement_draws depth).bind fun body =>
        .pure (Grammar.ForClauses.loop_relabel _ clauses body) <| subperm_of_count fun i => by
          simp only [Grammar.ForClauses.labels_loop, Grammar.ForClauses.labels, List.count_append,
            List.count_nil]
          omega) <|
    (accept_same _).choose
      ((condition_draws depth _ _).bind fun c => (statement_draws depth).bind fun thenBranch =>
        (accept_same _).choose
          ((statement_draws depth).bind fun elseBranch => .pure rfl <| subperm_of_count fun i => by
            simp only [Stmt.labels_ifElse, List.count_append, List.count_nil]
            omega)
          (.pure rfl <| subperm_of_count fun i => by
            simp only [Stmt.labels_ifThen, List.count_append, List.count_nil]
            omega)) <|
    (accept_same _).choose
      ((condition_draws depth _ _).bind fun c => (statement_draws depth).bind fun body =>
        .pure rfl <| subperm_of_count fun i => by
          simp only [Stmt.labels_whileLoop, List.count_append, List.count_nil]
          omega) <|
    (accept_same _).choose (returnStatement_draws depth) <|
    (accept_same _).choose ((body_draws depth).andThen fun body => .pure rfl <| by
      rw [Stmt.labels_block]) <|
    (accept_same _).choose (printStatement_draws depth) (expressionStatement_draws depth)

theorem body_draws : ∀ depth,
    Draws [] (Stmt.relabelAll .bare) Stmt.labelsAll (body depth) (body depth)
  | 0 => .crash _
  | depth + 1 =>
    (repeatUntil_draws isBodyEnd_same (declaration_draws depth) depth).andThen closeBlock_draws

theorem declaration_draws : ∀ depth,
    Draws [] (Option.map (Stmt.relabel .bare)) Stmt.labelsOption (declaration depth)
      (declaration depth)
  | 0 => .crash _
  | depth + 1 => recover_draws depth <|
    (accept_same _).choose (classDeclaration_draws depth) <|
    (accept_same _).choose ((routine_draws depth _).andThen fun d => .pure rfl <| by
      rw [Stmt.labels_function]) <|
    (accept_same _).choose ((varDeclaration_draws depth).andThen fun d => .pure rfl <| by
      rw [Stmt.labels_var])
      (statement_draws depth)

theorem routine_draws : ∀ depth kind,
    Draws [] (Stmt.relabelRoutine .bare) Stmt.labelsRoutine (routine depth kind) (routine depth kind)
  | 0, _ => .crash _
  | depth + 1, kind =>
    (header_same depth kind).bind fun _ => (body_draws depth).andThen fun _ =>
      .pure (Stmt.relabelRoutine_bare _) (List.Subperm.refl _)

theorem classDeclaration_draws : ∀ depth,
    Draws [] (Stmt.relabel .bare) Stmt.labels (classDeclaration depth) (classDeclaration depth)
  | 0 => .crash _
  | depth + 1 =>
    classHeader_draws.bind fun found =>
      (repeatUntil_draws isBodyEnd_same (member_draws depth) depth).bind fun members =>
        (closeMembers_draws members).bindWith fun ms => .pure rfl <| subperm_of_count fun i => by
          simp only [Stmt.labels_classDecl, List.count_append, List.count_nil]
          omega

theorem member_draws : ∀ depth,
    Draws [] (Member.relabel .bare) Member.labels (member depth) (member depth)
  | 0 => .crash _
  | depth + 1 =>
    (accept_same _).choose
      ((varDeclaration_draws depth).andThen fun _ => .pure rfl (List.Subperm.refl _))
      ((routine_draws depth _).andThen fun _ => .pure rfl (List.Subperm.refl _))

end

theorem program_draws (depth : Nat) :
    Draws [] (Stmt.relabelAll .bare) Stmt.labelsAll (program depth) (program depth) :=
  (repeatUntil_draws isAtEnd_same (declaration_draws depth) depth).andThen fun found =>
    .pure (Stmt.relabelAll_filterMap _ found) <| by rw [Stmt.labelsAll_filterMap]

/-- A parse with labels answers as the parse without labels, and in its program the labels that it has
drawn stand at most once. -/
theorem parseFrom_draws (depth : Nat) (label : NodeId) (tokens : List Token) :
    match parseFrom depth label tokens with
    | .ok (.ok program, next) =>
      parseWithin depth tokens = .ok (.ok (Stmt.relabelAll .bare program)) ∧ label ≤ next ∧
        (Stmt.labelsAll program).Subperm (List.range' label (next - label))
    | .ok (.error errors, next) => parseWithin depth tokens = .ok (.error errors) ∧ label ≤ next
    | .error c => parseWithin depth tokens = .error c := by
  have hdraws := program_draws depth (.new tokens label)
  unfold parseWithin parseFrom
  by_cases hempty : tokens.isEmpty = true
  · rw [if_pos hempty, if_pos hempty]
    exact ⟨rfl, Nat.le_refl _, List.nil_subperm⟩
  · rw [if_neg hempty, if_neg hempty]
    cases hp : program depth (.new tokens label) with
    | ok statements q =>
      rw [hp] at hdraws
      obtain ⟨hbare, hle, hlabels⟩ := hdraws
      replace hbare : program depth (.new tokens ()) =
          .ok (Stmt.relabelAll .bare statements) q.bare := hbare
      rw [hbare]
      by_cases herrors : q.errors.isEmpty = true
      · have hnone : q.bare.errors.isEmpty = true := herrors
        simp only [if_pos herrors, if_pos hnone]
        exact ⟨rfl, hle, hlabels⟩
      · have hsome : ¬ q.bare.errors.isEmpty = true := herrors
        simp only [if_neg herrors, if_neg hsome]
        exact ⟨rfl, hle⟩
    | error i q =>
      rw [hp] at hdraws
      obtain ⟨hbare, hle⟩ := hdraws
      replace hbare : program depth (.new tokens ()) = .error i q.bare := hbare
      rw [hbare]
      cases i with
      | fault e => exact ⟨rfl, hle⟩
      | crash c => exact rfl

end Parser

end ClassScript
