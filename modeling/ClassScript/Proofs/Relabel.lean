import ClassScript.Syntax.Numbering
import ClassScript.Syntax.Parser
import Mathlib.Logic.Basic

/-!
# Programs on other lines and with other labels

`Relabel` says how lines and the labels of uses of names change. A relabelled program has the same
constructors in the same places. Numbering a program that is the same but for its lines, from another
number on, is relabelling (`Stmt.numberAll_relabel`).
-/

set_option autoImplicit false

namespace ClassScript

variable {ι κ : Type}

/-- What becomes of lines and of labels. -/
structure Relabel (ι κ : Type) where
  line : Nat → Nat
  use : ι → κ

/-- Labels are dropped, lines stay. -/
def Relabel.bare : Relabel ι Unit :=
  ⟨fun line => line, fun _ => ()⟩

/-- The token on another line. -/
def Token.onLine (f : Nat → Nat) (t : Token) : Token :=
  ⟨t.kind, t.lexeme, f t.line⟩

/-- The name on another line. -/
def Name.onLine (f : Nat → Nat) (n : Name) : Name :=
  ⟨n.text, f n.line⟩

/-- The parameter on other lines. -/
def Param.onLine (f : Nat → Nat) (p : Param) : Param :=
  ⟨p.name.onLine f, p.typeName.onLine f⟩

mutual

/-- The expression with other lines and labels. -/
def Expr.relabel (ρ : Relabel ι κ) : Expr ι → Expr κ
  | .literal value => .literal value
  | .unary operator operand => .unary (operator.onLine ρ.line) (operand.relabel ρ)
  | .suffixed operand operator => .suffixed (operand.relabel ρ) (operator.onLine ρ.line)
  | .binary left operator right =>
    .binary (left.relabel ρ) (operator.onLine ρ.line) (right.relabel ρ)
  | .logical left operator right =>
    .logical (left.relabel ρ) (operator.onLine ρ.line) (right.relabel ρ)
  | .grouping inner => .grouping (inner.relabel ρ)
  | .variable id name => .variable (ρ.use id) (name.onLine ρ.line)
  | .assign id name value => .assign (ρ.use id) (name.onLine ρ.line) (value.relabel ρ)
  | .call callee line arguments =>
    .call (callee.relabel ρ) (ρ.line line) (Expr.relabelAll ρ arguments)
  | .get object name => .get (object.relabel ρ) (name.onLine ρ.line)
  | .set object name value => .set (object.relabel ρ) (name.onLine ρ.line) (value.relabel ρ)
  | .this id keyword => .this (ρ.use id) (keyword.onLine ρ.line)
  | .super id keyword method =>
    .super (ρ.use id) (keyword.onLine ρ.line) (method.onLine ρ.line)
termination_by structural e => e

/-- The arguments of a call with other lines and labels. -/
def Expr.relabelAll (ρ : Relabel ι κ) : List (Expr ι) → List (Expr κ)
  | [] => []
  | e :: rest => e.relabel ρ :: Expr.relabelAll ρ rest
termination_by structural es => es

end

/-- The variable or field with other lines and labels. -/
def VarDecl.relabel (ρ : Relabel ι κ) (d : VarDecl ι) : VarDecl κ :=
  ⟨d.name.onLine ρ.line, d.typeName.map (Token.onLine ρ.line), d.initializer.map (Expr.relabel ρ)⟩

/-- The use of a superclass with another line and label. -/
def SuperclassRef.relabel (ρ : Relabel ι κ) (s : SuperclassRef ι) : SuperclassRef κ :=
  ⟨ρ.use s.id, s.name.onLine ρ.line⟩

mutual

/-- The statement with other lines and labels. -/
def Stmt.relabel (ρ : Relabel ι κ) : Stmt ι → Stmt κ
  | .expression value => .expression (value.relabel ρ)
  | .print value => .print (value.relabel ρ)
  | .var decl => .var (decl.relabel ρ)
  | .block body => .block (Stmt.relabelAll ρ body)
  | .ifThen condition thenBranch => .ifThen (condition.relabel ρ) (thenBranch.relabel ρ)
  | .ifElse condition thenBranch elseBranch =>
    .ifElse (condition.relabel ρ) (thenBranch.relabel ρ) (elseBranch.relabel ρ)
  | .whileLoop condition body => .whileLoop (condition.relabel ρ) (body.relabel ρ)
  | .function decl => .function (Stmt.relabelRoutine ρ decl)
  | .returnWith keyword value =>
    .returnWith (keyword.onLine ρ.line) (value.map (Expr.relabel ρ))
  | .classDecl ⟨name, superclass, fields, methods⟩ =>
    .classDecl ⟨name.onLine ρ.line, superclass.map (SuperclassRef.relabel ρ),
      fields.map (VarDecl.relabel ρ), Stmt.relabelRoutines ρ methods⟩
termination_by structural s => s

/-- The statements with other lines and labels. -/
def Stmt.relabelAll (ρ : Relabel ι κ) : List (Stmt ι) → List (Stmt κ)
  | [] => []
  | s :: rest => s.relabel ρ :: Stmt.relabelAll ρ rest
termination_by structural ss => ss

/-- The function or method with other lines and labels. -/
def Stmt.relabelRoutine (ρ : Relabel ι κ) : FunctionDecl (Stmt ι) → FunctionDecl (Stmt κ)
  | ⟨name, params, result, body⟩ =>
    ⟨name.onLine ρ.line, params.map (Param.onLine ρ.line), result.map (Token.onLine ρ.line),
      Stmt.relabelAll ρ body⟩
termination_by structural d => d

/-- The methods with other lines and labels. -/
def Stmt.relabelRoutines (ρ : Relabel ι κ) :
    List (FunctionDecl (Stmt ι)) → List (FunctionDecl (Stmt κ))
  | [] => []
  | d :: rest => Stmt.relabelRoutine ρ d :: Stmt.relabelRoutines ρ rest
termination_by structural ds => ds

end

/-- The class with other lines and labels. -/
def ClassDecl.relabel (ρ : Relabel ι κ) (decl : ClassDecl ι (Stmt ι)) : ClassDecl κ (Stmt κ) :=
  ⟨decl.name.onLine ρ.line, decl.superclass.map (SuperclassRef.relabel ρ),
    decl.fields.map (VarDecl.relabel ρ), Stmt.relabelRoutines ρ decl.methods⟩

/-! ## What a relabelling leaves as it is -/

section

variable (ρ : Relabel ι κ) (f : Nat → Nat)

@[simp] theorem Token.kind_onLine (t : Token) : (t.onLine f).kind = t.kind := rfl

@[simp] theorem Token.lexeme_onLine (t : Token) : (t.onLine f).lexeme = t.lexeme := rfl

@[simp] theorem Token.line_onLine (t : Token) : (t.onLine f).line = f t.line := rfl

@[simp] theorem Token.isSymbol_onLine (t : Token) : (t.onLine f).isSymbol = t.isSymbol := rfl

@[simp] theorem Token.toName_onLine (t : Token) : (t.onLine f).toName = t.toName.onLine f := rfl

@[simp] theorem Name.text_onLine (n : Name) : (n.onLine f).text = n.text := rfl

@[simp] theorem Name.line_onLine (n : Name) : (n.onLine f).line = f n.line := rfl

@[simp] theorem Param.name_onLine (p : Param) : (p.onLine f).name = p.name.onLine f := rfl

@[simp] theorem Param.typeName_onLine (p : Param) :
    (p.onLine f).typeName = p.typeName.onLine f := rfl

theorem Expr.relabelAll_eq (es : List (Expr ι)) : Expr.relabelAll ρ es = es.map (Expr.relabel ρ) := by
  induction es with
  | nil => rfl
  | cons e rest ih => rw [Expr.relabelAll, ih, List.map_cons]

theorem Stmt.relabelAll_eq (ss : List (Stmt ι)) : Stmt.relabelAll ρ ss = ss.map (Stmt.relabel ρ) := by
  induction ss with
  | nil => rfl
  | cons s rest ih => rw [Stmt.relabelAll, ih, List.map_cons]

theorem Stmt.relabelRoutines_eq (ds : List (FunctionDecl (Stmt ι))) :
    Stmt.relabelRoutines ρ ds = ds.map (Stmt.relabelRoutine ρ) := by
  induction ds with
  | nil => rfl
  | cons d rest ih => rw [Stmt.relabelRoutines, ih, List.map_cons]

theorem Stmt.relabelRoutine_eq (d : FunctionDecl (Stmt ι)) :
    Stmt.relabelRoutine ρ d =
      ⟨d.name.onLine ρ.line, d.params.map (Param.onLine ρ.line),
        d.result.map (Token.onLine ρ.line), Stmt.relabelAll ρ d.body⟩ := by
  obtain ⟨name, params, result, body⟩ := d
  rfl

/-- An expression without a line of its own keeps line 0. -/
theorem Expr.line_relabel (h : ρ.line 0 = 0) : ∀ e : Expr ι, (e.relabel ρ).line = ρ.line e.line
  | .literal _ => h.symm
  | .unary _ _ => rfl
  | .suffixed _ _ => rfl
  | .binary _ _ _ => rfl
  | .logical _ _ _ => rfl
  | .grouping inner => Expr.line_relabel h inner
  | .variable _ _ => rfl
  | .assign _ _ _ => rfl
  | .call _ _ _ => rfl
  | .get _ _ => rfl
  | .set _ _ _ => rfl
  | .this _ _ => rfl
  | .super _ _ _ => rfl
termination_by structural e => e

end

/-! ## What the grammar builds -/

namespace Grammar

theorem Level.combine_relabel (ρ : Relabel ι κ) (level : Level) (left right : Expr ι)
    (operator : Token) : (level.combine left operator right).relabel ρ =
      level.combine (left.relabel ρ) (operator.onLine ρ.line) (right.relabel ρ) := by
  cases level <;> rfl

/-- The clauses of a loop with other lines and labels. -/
def ForClauses.relabel (ρ : Relabel ι κ) (c : ForClauses ι) : ForClauses κ :=
  ⟨c.initializer.map (Stmt.relabel ρ), c.condition.map (Expr.relabel ρ),
    c.increment.map (Expr.relabel ρ)⟩

theorem ForClauses.loop_relabel (ρ : Relabel ι κ) (c : ForClauses ι) (body : Stmt ι) :
    (c.loop body).relabel ρ = (c.relabel ρ).loop (body.relabel ρ) := by
  obtain ⟨first, condition, increment⟩ := c
  cases first <;> cases condition <;> cases increment <;> rfl

end Grammar

/-! ## No change -/

/-- Lines and labels stay as they are. -/
def Relabel.same : Relabel ι ι :=
  ⟨fun l => l, fun i => i⟩

mutual

theorem Expr.relabel_same : ∀ e : Expr ι, e.relabel .same = e
  | .literal _ => rfl
  | .unary _ operand => congrArg (Expr.unary _) operand.relabel_same
  | .suffixed operand _ => congrArg (Expr.suffixed · _) operand.relabel_same
  | .binary left _ right => congrArg₂ (Expr.binary · _ ·) left.relabel_same right.relabel_same
  | .logical left _ right => congrArg₂ (Expr.logical · _ ·) left.relabel_same right.relabel_same
  | .grouping inner => congrArg Expr.grouping inner.relabel_same
  | .variable _ _ => rfl
  | .assign _ _ value => congrArg (Expr.assign _ _) value.relabel_same
  | .call callee _ arguments =>
    congrArg₂ (Expr.call · _ ·) callee.relabel_same (Expr.relabelAll_same arguments)
  | .get object _ => congrArg (Expr.get · _) object.relabel_same
  | .set object _ value => congrArg₂ (Expr.set · _ ·) object.relabel_same value.relabel_same
  | .this _ _ => rfl
  | .super _ _ _ => rfl
termination_by structural e => e

theorem Expr.relabelAll_same : ∀ es : List (Expr ι), Expr.relabelAll .same es = es
  | [] => rfl
  | e :: rest => congrArg₂ List.cons e.relabel_same (Expr.relabelAll_same rest)
termination_by structural es => es

end

theorem Expr.relabelOption_same (e : Option (Expr ι)) : e.map (Expr.relabel .same) = e := by
  cases e with
  | none => rfl
  | some e => exact congrArg some e.relabel_same

theorem Token.onLineOption_same (t : Option Token) : t.map (Token.onLine fun l => l) = t :=
  Option.map_id'

theorem VarDecl.relabel_same (d : VarDecl ι) : d.relabel .same = d :=
  congrArg₂ (VarDecl.mk _ · ·) (Token.onLineOption_same d.typeName)
    (Expr.relabelOption_same d.initializer)

mutual

theorem Stmt.relabel_same : ∀ s : Stmt ι, s.relabel .same = s
  | .expression value => congrArg Stmt.expression value.relabel_same
  | .print value => congrArg Stmt.print value.relabel_same
  | .var decl => congrArg Stmt.var decl.relabel_same
  | .block body => congrArg Stmt.block (Stmt.relabelAll_same body)
  | .ifThen condition thenBranch =>
    congrArg₂ Stmt.ifThen condition.relabel_same thenBranch.relabel_same
  | .ifElse condition thenBranch elseBranch => by
    rw [Stmt.relabel, condition.relabel_same, thenBranch.relabel_same, elseBranch.relabel_same]
  | .whileLoop condition body =>
    congrArg₂ Stmt.whileLoop condition.relabel_same body.relabel_same
  | .function decl => congrArg Stmt.function (Stmt.relabelRoutine_same decl)
  | .returnWith _ value => congrArg (Stmt.returnWith _) (Expr.relabelOption_same value)
  | .classDecl ⟨_, superclass, fields, methods⟩ => by
    have hsuper : superclass.map (SuperclassRef.relabel .same) = superclass := Option.map_id'
    have hfields : fields.map (VarDecl.relabel .same) = fields :=
      (List.map_congr_left fun d _ => d.relabel_same).trans (List.map_id' fields)
    rw [Stmt.relabel, hsuper, hfields, Stmt.relabelRoutines_same methods]
    rfl
termination_by structural s => s

theorem Stmt.relabelAll_same : ∀ ss : List (Stmt ι), Stmt.relabelAll .same ss = ss
  | [] => rfl
  | s :: rest => congrArg₂ List.cons s.relabel_same (Stmt.relabelAll_same rest)
termination_by structural ss => ss

theorem Stmt.relabelRoutine_same : ∀ d : FunctionDecl (Stmt ι), Stmt.relabelRoutine .same d = d
  | ⟨_, params, result, body⟩ => by
    have hparams : params.map (Param.onLine fun l => l) = params := List.map_id' params
    have hresult : result.map (Token.onLine fun l => l) = result := Option.map_id'
    simp only [Stmt.relabelRoutine, Relabel.same] at *
    rw [hparams, hresult, show Stmt.relabelAll ⟨fun l => l, fun i => i⟩ body = body from
      Stmt.relabelAll_same body]
    rfl
termination_by structural d => d

theorem Stmt.relabelRoutines_same : ∀ ds : List (FunctionDecl (Stmt ι)),
    Stmt.relabelRoutines .same ds = ds
  | [] => rfl
  | d :: rest => congrArg₂ List.cons (Stmt.relabelRoutine_same d) (Stmt.relabelRoutines_same rest)
termination_by structural ds => ds

end

/-! ## One relabelling after another -/

section

variable {τ : Type} (ρ : Relabel ι κ) (ρ' : Relabel κ τ)

/-- The second relabelling after the first one. -/
def Relabel.then : Relabel ι τ :=
  ⟨fun l => ρ'.line (ρ.line l), fun i => ρ'.use (ρ.use i)⟩

mutual

theorem Expr.relabel_relabel : ∀ e : Expr ι, (e.relabel ρ).relabel ρ' = e.relabel (ρ.then ρ')
  | .literal _ => rfl
  | .unary _ operand => congrArg (Expr.unary _) operand.relabel_relabel
  | .suffixed operand _ => congrArg (Expr.suffixed · _) operand.relabel_relabel
  | .binary left _ right =>
    congrArg₂ (Expr.binary · _ ·) left.relabel_relabel right.relabel_relabel
  | .logical left _ right =>
    congrArg₂ (Expr.logical · _ ·) left.relabel_relabel right.relabel_relabel
  | .grouping inner => congrArg Expr.grouping inner.relabel_relabel
  | .variable _ _ => rfl
  | .assign _ _ value => congrArg (Expr.assign _ _) value.relabel_relabel
  | .call callee _ arguments =>
    congrArg₂ (Expr.call · _ ·) callee.relabel_relabel (Expr.relabelAll_relabelAll arguments)
  | .get object _ => congrArg (Expr.get · _) object.relabel_relabel
  | .set object _ value =>
    congrArg₂ (Expr.set · _ ·) object.relabel_relabel value.relabel_relabel
  | .this _ _ => rfl
  | .super _ _ _ => rfl
termination_by structural e => e

theorem Expr.relabelAll_relabelAll : ∀ es : List (Expr ι),
    Expr.relabelAll ρ' (Expr.relabelAll ρ es) = Expr.relabelAll (ρ.then ρ') es
  | [] => rfl
  | e :: rest => congrArg₂ List.cons e.relabel_relabel (Expr.relabelAll_relabelAll rest)
termination_by structural es => es

end

theorem Expr.relabelOption_relabel (e : Option (Expr ι)) :
    (e.map (Expr.relabel ρ)).map (Expr.relabel ρ') = e.map (Expr.relabel (ρ.then ρ')) := by
  rw [Option.map_map]
  exact congrArg (Option.map · e) (funext (Expr.relabel_relabel ρ ρ'))

theorem Token.onLineOption (t : Option Token) :
    (t.map (Token.onLine ρ.line)).map (Token.onLine ρ'.line) =
      t.map (Token.onLine (ρ.then ρ').line) := by
  rw [Option.map_map]
  rfl

theorem VarDecl.relabel_relabel (d : VarDecl ι) :
    (d.relabel ρ).relabel ρ' = d.relabel (ρ.then ρ') :=
  congrArg₂ (VarDecl.mk _ · ·) (Token.onLineOption ρ ρ' d.typeName)
    (Expr.relabelOption_relabel ρ ρ' d.initializer)

mutual

theorem Stmt.relabel_relabel : ∀ s : Stmt ι, (s.relabel ρ).relabel ρ' = s.relabel (ρ.then ρ')
  | .expression value => congrArg Stmt.expression (value.relabel_relabel ρ ρ')
  | .print value => congrArg Stmt.print (value.relabel_relabel ρ ρ')
  | .var decl => congrArg Stmt.var (decl.relabel_relabel ρ ρ')
  | .block body => congrArg Stmt.block (Stmt.relabelAll_relabelAll body)
  | .ifThen condition thenBranch =>
    congrArg₂ Stmt.ifThen (condition.relabel_relabel ρ ρ') thenBranch.relabel_relabel
  | .ifElse condition thenBranch elseBranch => by
    simp only [Stmt.relabel]
    rw [condition.relabel_relabel, thenBranch.relabel_relabel, elseBranch.relabel_relabel]
  | .whileLoop condition body =>
    congrArg₂ Stmt.whileLoop (condition.relabel_relabel ρ ρ') body.relabel_relabel
  | .function decl => congrArg Stmt.function (Stmt.relabelRoutine_relabelRoutine decl)
  | .returnWith _ value =>
    congrArg (Stmt.returnWith _) (Expr.relabelOption_relabel ρ ρ' value)
  | .classDecl ⟨_, superclass, fields, methods⟩ => by
    simp only [Stmt.relabel, Option.map_map, List.map_map, Stmt.relabelRoutines_relabelRoutines]
    exact congrArg (fun f => Stmt.classDecl ⟨_, _, List.map f fields, _⟩)
      (funext (VarDecl.relabel_relabel ρ ρ'))
termination_by structural s => s

theorem Stmt.relabelAll_relabelAll : ∀ ss : List (Stmt ι),
    Stmt.relabelAll ρ' (Stmt.relabelAll ρ ss) = Stmt.relabelAll (ρ.then ρ') ss
  | [] => rfl
  | s :: rest => congrArg₂ List.cons s.relabel_relabel (Stmt.relabelAll_relabelAll rest)
termination_by structural ss => ss

theorem Stmt.relabelRoutine_relabelRoutine : ∀ d : FunctionDecl (Stmt ι),
    Stmt.relabelRoutine ρ' (Stmt.relabelRoutine ρ d) = Stmt.relabelRoutine (ρ.then ρ') d
  | ⟨_, _, _, body⟩ => by
    simp only [Stmt.relabelRoutine, List.map_map, Token.onLineOption,
      Stmt.relabelAll_relabelAll body]
    rfl
termination_by structural d => d

theorem Stmt.relabelRoutines_relabelRoutines : ∀ ds : List (FunctionDecl (Stmt ι)),
    Stmt.relabelRoutines ρ' (Stmt.relabelRoutines ρ ds) = Stmt.relabelRoutines (ρ.then ρ') ds
  | [] => rfl
  | d :: rest =>
    congrArg₂ List.cons (Stmt.relabelRoutine_relabelRoutine d)
      (Stmt.relabelRoutines_relabelRoutines rest)
termination_by structural ds => ds

end

end

/-! ## Labels that occur -/

section

variable {ρ ρ' : Relabel ι κ}

/-- The relabellings do the same to lines and to the labels of these uses. -/
structure Relabel.AgreeOn (ρ ρ' : Relabel ι κ) (os : List (Occurrence ι)) : Prop where
  line : ρ.line = ρ'.line
  use : ∀ o ∈ os, ρ.use o.id = ρ'.use o.id

theorem Relabel.AgreeOn.left {os ps : List (Occurrence ι)} (h : ρ.AgreeOn ρ' (os ++ ps)) :
    ρ.AgreeOn ρ' os :=
  ⟨h.line, fun o ho => h.use o (List.mem_append_left ps ho)⟩

theorem Relabel.AgreeOn.right {os ps : List (Occurrence ι)} (h : ρ.AgreeOn ρ' (os ++ ps)) :
    ρ.AgreeOn ρ' ps :=
  ⟨h.line, fun o ho => h.use o (List.mem_append_right os ho)⟩

theorem Relabel.AgreeOn.head {o : Occurrence ι} {os : List (Occurrence ι)}
    (h : ρ.AgreeOn ρ' (o :: os)) : ρ.use o.id = ρ'.use o.id ∧ ρ.AgreeOn ρ' os :=
  ⟨h.use o (List.mem_cons_self ..), h.line, fun p hp => h.use p (List.mem_cons_of_mem o hp)⟩

mutual

theorem Expr.relabel_congr : ∀ e : Expr ι, ρ.AgreeOn ρ' e.occurrences → e.relabel ρ = e.relabel ρ'
  | .literal _, _ => rfl
  | .unary _ operand, h => by rw [Expr.relabel, Expr.relabel, operand.relabel_congr h, h.line]
  | .suffixed operand _, h => by rw [Expr.relabel, Expr.relabel, operand.relabel_congr h, h.line]
  | .binary left _ right, h => by
    rw [Expr.relabel, Expr.relabel, left.relabel_congr h.left, right.relabel_congr h.right, h.line]
  | .logical left _ right, h => by
    rw [Expr.relabel, Expr.relabel, left.relabel_congr h.left, right.relabel_congr h.right, h.line]
  | .grouping inner, h => by rw [Expr.relabel, Expr.relabel, inner.relabel_congr h]
  | .variable _ _, h => by rw [Expr.relabel, Expr.relabel, h.head.1, h.line]
  | .assign _ _ value, h => by
    rw [Expr.relabel, Expr.relabel, h.head.1, value.relabel_congr h.head.2, h.line]
  | .call callee _ arguments, h => by
    rw [Expr.relabel, Expr.relabel, callee.relabel_congr h.left,
      Expr.relabelAll_congr arguments h.right, h.line]
  | .get object _, h => by rw [Expr.relabel, Expr.relabel, object.relabel_congr h, h.line]
  | .set object _ value, h => by
    rw [Expr.relabel, Expr.relabel, object.relabel_congr h.left, value.relabel_congr h.right, h.line]
  | .this _ _, h => by rw [Expr.relabel, Expr.relabel, h.head.1, h.line]
  | .super _ _ _, h => by rw [Expr.relabel, Expr.relabel, h.head.1, h.line]
termination_by structural e => e

theorem Expr.relabelAll_congr : ∀ es : List (Expr ι), ρ.AgreeOn ρ' (Expr.occurrencesAll es) →
    Expr.relabelAll ρ es = Expr.relabelAll ρ' es
  | [], _ => rfl
  | e :: rest, h =>
    congrArg₂ List.cons (e.relabel_congr h.left) (Expr.relabelAll_congr rest h.right)
termination_by structural es => es

end

theorem Expr.relabelOption_congr {e : Option (Expr ι)}
    (h : ρ.AgreeOn ρ' (Expr.occurrencesOption e)) :
    e.map (Expr.relabel ρ) = e.map (Expr.relabel ρ') := by
  cases e with
  | none => rfl
  | some e => exact congrArg some (e.relabel_congr h)

theorem VarDecl.relabel_congr {d : VarDecl ι}
    (h : ρ.AgreeOn ρ' (Expr.occurrencesOption d.initializer)) : d.relabel ρ = d.relabel ρ' := by
  rw [VarDecl.relabel, VarDecl.relabel, Expr.relabelOption_congr h, h.line]

theorem VarDecl.relabelAll_congr {ds : List (VarDecl ι)}
    (h : ρ.AgreeOn ρ' (VarDecl.occurrencesAll ds)) :
    ds.map (VarDecl.relabel ρ) = ds.map (VarDecl.relabel ρ') := by
  induction ds with
  | nil => rfl
  | cons d rest ih =>
    exact congrArg₂ List.cons (VarDecl.relabel_congr h.left) (ih h.right)

theorem SuperclassRef.relabel_congr {s : Option (SuperclassRef ι)}
    (h : ρ.AgreeOn ρ' (SuperclassRef.occurrences s)) :
    s.map (SuperclassRef.relabel ρ) = s.map (SuperclassRef.relabel ρ') := by
  cases s with
  | none => rfl
  | some s =>
    refine congrArg some ?_
    rw [SuperclassRef.relabel, SuperclassRef.relabel, h.head.1, h.line]

mutual

theorem Stmt.relabel_congr : ∀ s : Stmt ι, ρ.AgreeOn ρ' s.occurrences → s.relabel ρ = s.relabel ρ'
  | .expression value, h => congrArg Stmt.expression (value.relabel_congr h)
  | .print value, h => congrArg Stmt.print (value.relabel_congr h)
  | .var _, h => congrArg Stmt.var (VarDecl.relabel_congr h)
  | .block body, h => congrArg Stmt.block (Stmt.relabelAll_congr body h)
  | .ifThen condition thenBranch, h =>
    congrArg₂ Stmt.ifThen (condition.relabel_congr h.left) (thenBranch.relabel_congr h.right)
  | .ifElse condition thenBranch elseBranch, h => by
    rw [Stmt.relabel, Stmt.relabel, condition.relabel_congr h.left.left,
      thenBranch.relabel_congr h.left.right, elseBranch.relabel_congr h.right]
  | .whileLoop condition body, h =>
    congrArg₂ Stmt.whileLoop (condition.relabel_congr h.left) (body.relabel_congr h.right)
  | .function decl, h => congrArg Stmt.function (Stmt.relabelRoutine_congr decl h)
  | .returnWith _ _, h => by
    rw [Stmt.relabel, Stmt.relabel, Expr.relabelOption_congr h, h.line]
  | .classDecl ⟨_, _, _, methods⟩, h => by
    rw [Stmt.relabel, Stmt.relabel, SuperclassRef.relabel_congr h.left.left,
      VarDecl.relabelAll_congr h.left.right, Stmt.relabelRoutines_congr methods h.right, h.line]
termination_by structural s => s

theorem Stmt.relabelAll_congr : ∀ ss : List (Stmt ι), ρ.AgreeOn ρ' (Stmt.occurrencesAll ss) →
    Stmt.relabelAll ρ ss = Stmt.relabelAll ρ' ss
  | [], _ => rfl
  | s :: rest, h =>
    congrArg₂ List.cons (s.relabel_congr h.left) (Stmt.relabelAll_congr rest h.right)
termination_by structural ss => ss

theorem Stmt.relabelRoutine_congr : ∀ d : FunctionDecl (Stmt ι),
    ρ.AgreeOn ρ' (Stmt.occurrencesRoutine d) →
      Stmt.relabelRoutine ρ d = Stmt.relabelRoutine ρ' d
  | ⟨_, _, _, body⟩, h => by
    rw [Stmt.relabelRoutine, Stmt.relabelRoutine, Stmt.relabelAll_congr body h, h.line]
termination_by structural d => d

theorem Stmt.relabelRoutines_congr : ∀ ds : List (FunctionDecl (Stmt ι)),
    ρ.AgreeOn ρ' (Stmt.occurrencesRoutines ds) →
      Stmt.relabelRoutines ρ ds = Stmt.relabelRoutines ρ' ds
  | [], _ => rfl
  | d :: rest, h =>
    congrArg₂ List.cons (Stmt.relabelRoutine_congr d h.left)
      (Stmt.relabelRoutines_congr rest h.right)
termination_by structural ds => ds

end

end

end ClassScript
