import ClassScript.Syntax.Basic

/-!
# Numbering the uses of names

`number` gives every use of a variable, `this` or `super` in a program a number of its own, counting
up from a first one in the order of the program. `occurrences` lists these uses in the same order.
-/

set_option autoImplicit false

namespace ClassScript

variable {ι : Type}

/-! ## Giving numbers -/

/-- The next number. -/
def nextId : StateM NodeId NodeId :=
  modifyGet fun n => (n, n + 1)

mutual

/-- Numbers the uses of names in an expression. -/
def Expr.number : Expr ι → StateM NodeId (Expr NodeId)
  | .literal value => return .literal value
  | .unary operator operand => return .unary operator (← operand.number)
  | .suffixed operand operator => return .suffixed (← operand.number) operator
  | .binary left operator right => return .binary (← left.number) operator (← right.number)
  | .logical left operator right => return .logical (← left.number) operator (← right.number)
  | .grouping inner => return .grouping (← inner.number)
  | .variable _ name => return .variable (← nextId) name
  | .assign _ name value => return .assign (← nextId) name (← value.number)
  | .call callee line arguments =>
    return .call (← callee.number) line (← Expr.numberAll arguments)
  | .get object name => return .get (← object.number) name
  | .set object name value => return .set (← object.number) name (← value.number)
  | .this _ keyword => return .this (← nextId) keyword
  | .super _ keyword method => return .super (← nextId) keyword method
termination_by structural e => e

/-- Numbers the uses of names in the arguments of a call. -/
def Expr.numberAll : List (Expr ι) → StateM NodeId (List (Expr NodeId))
  | [] => return []
  | e :: rest => return (← e.number) :: (← Expr.numberAll rest)
termination_by structural es => es

end

/-- Numbers the uses of names in an expression that may be missing. -/
def Expr.numberOption : Option (Expr ι) → StateM NodeId (Option (Expr NodeId))
  | none => return none
  | some e => return some (← e.number)

/-- Numbers the uses of names in a variable or a field. -/
def VarDecl.number (d : VarDecl ι) : StateM NodeId (VarDecl NodeId) :=
  return ⟨d.name, d.typeName, ← Expr.numberOption d.initializer⟩

/-- Numbers the uses of names in fields. -/
def VarDecl.numberAll : List (VarDecl ι) → StateM NodeId (List (VarDecl NodeId))
  | [] => return []
  | d :: rest => return (← d.number) :: (← VarDecl.numberAll rest)

/-- Numbers the use of a superclass. -/
def SuperclassRef.numberOption :
    Option (SuperclassRef ι) → StateM NodeId (Option (SuperclassRef NodeId))
  | none => return none
  | some s => return some ⟨← nextId, s.name⟩

mutual

/-- Numbers the uses of names in a statement. -/
def Stmt.number : Stmt ι → StateM NodeId (Stmt NodeId)
  | .expression value => return .expression (← value.number)
  | .print value => return .print (← value.number)
  | .var decl => return .var (← decl.number)
  | .block body => return .block (← Stmt.numberAll body)
  | .ifThen condition thenBranch => return .ifThen (← condition.number) (← thenBranch.number)
  | .ifElse condition thenBranch elseBranch =>
    return .ifElse (← condition.number) (← thenBranch.number) (← elseBranch.number)
  | .whileLoop condition body => return .whileLoop (← condition.number) (← body.number)
  | .function decl => return .function (← Stmt.numberRoutine decl)
  | .returnWith keyword value => return .returnWith keyword (← Expr.numberOption value)
  | .classDecl ⟨name, superclass, fields, methods⟩ =>
    return .classDecl ⟨name, ← SuperclassRef.numberOption superclass, ← VarDecl.numberAll fields,
      ← Stmt.numberRoutines methods⟩
termination_by structural s => s

/-- Numbers the uses of names in statements. -/
def Stmt.numberAll : List (Stmt ι) → StateM NodeId (List (Stmt NodeId))
  | [] => return []
  | s :: rest => return (← s.number) :: (← Stmt.numberAll rest)
termination_by structural ss => ss

/-- Numbers the uses of names in a function or a method. -/
def Stmt.numberRoutine :
    FunctionDecl (Stmt ι) → StateM NodeId (FunctionDecl (Stmt NodeId))
  | ⟨name, params, result, body⟩ => return ⟨name, params, result, ← Stmt.numberAll body⟩
termination_by structural d => d

/-- Numbers the uses of names in methods. -/
def Stmt.numberRoutines :
    List (FunctionDecl (Stmt ι)) → StateM NodeId (List (FunctionDecl (Stmt NodeId)))
  | [] => return []
  | d :: rest => return (← Stmt.numberRoutine d) :: (← Stmt.numberRoutines rest)
termination_by structural ds => ds

end

/-! ## Listing the uses -/

/-- The ways in which a name is used. -/
inductive UseKind where
  | variable
  | assign
  | this
  | super
  deriving Repr, DecidableEq

/-- A use of a name. -/
structure Occurrence (ι : Type) where
  kind : UseKind
  id : ι
  name : Name
  deriving Repr, DecidableEq

mutual

/-- The uses of names in an expression. -/
def Expr.occurrences : Expr ι → List (Occurrence ι)
  | .literal _ => []
  | .unary _ operand => operand.occurrences
  | .suffixed operand _ => operand.occurrences
  | .binary left _ right => left.occurrences ++ right.occurrences
  | .logical left _ right => left.occurrences ++ right.occurrences
  | .grouping inner => inner.occurrences
  | .variable id name => [⟨.variable, id, name⟩]
  | .assign id name value => ⟨.assign, id, name⟩ :: value.occurrences
  | .call callee _ arguments => callee.occurrences ++ Expr.occurrencesAll arguments
  | .get object _ => object.occurrences
  | .set object _ value => object.occurrences ++ value.occurrences
  | .this id keyword => [⟨.this, id, keyword⟩]
  | .super id keyword _ => [⟨.super, id, keyword⟩]
termination_by structural e => e

/-- The uses of names in the arguments of a call. -/
def Expr.occurrencesAll : List (Expr ι) → List (Occurrence ι)
  | [] => []
  | e :: rest => e.occurrences ++ Expr.occurrencesAll rest
termination_by structural es => es

end

/-- The uses of names in an expression that may be missing. -/
def Expr.occurrencesOption : Option (Expr ι) → List (Occurrence ι)
  | none => []
  | some e => e.occurrences

/-- The uses of names in fields. -/
def VarDecl.occurrencesAll (fields : List (VarDecl ι)) : List (Occurrence ι) :=
  fields.flatMap fun d => Expr.occurrencesOption d.initializer

/-- The use of a superclass. -/
def SuperclassRef.occurrences : Option (SuperclassRef ι) → List (Occurrence ι)
  | none => []
  | some s => [⟨.variable, s.id, s.name⟩]

mutual

/-- The uses of names in a statement. -/
def Stmt.occurrences : Stmt ι → List (Occurrence ι)
  | .expression value => value.occurrences
  | .print value => value.occurrences
  | .var decl => Expr.occurrencesOption decl.initializer
  | .block body => Stmt.occurrencesAll body
  | .ifThen condition thenBranch => condition.occurrences ++ thenBranch.occurrences
  | .ifElse condition thenBranch elseBranch =>
    condition.occurrences ++ thenBranch.occurrences ++ elseBranch.occurrences
  | .whileLoop condition body => condition.occurrences ++ body.occurrences
  | .function decl => Stmt.occurrencesRoutine decl
  | .returnWith _ value => Expr.occurrencesOption value
  | .classDecl ⟨_, superclass, fields, methods⟩ =>
    SuperclassRef.occurrences superclass ++ VarDecl.occurrencesAll fields ++
      Stmt.occurrencesRoutines methods
termination_by structural s => s

/-- The uses of names in statements. -/
def Stmt.occurrencesAll : List (Stmt ι) → List (Occurrence ι)
  | [] => []
  | s :: rest => s.occurrences ++ Stmt.occurrencesAll rest
termination_by structural ss => ss

/-- The uses of names in a function or a method. -/
def Stmt.occurrencesRoutine : FunctionDecl (Stmt ι) → List (Occurrence ι)
  | ⟨_, _, _, body⟩ => Stmt.occurrencesAll body
termination_by structural d => d

/-- The uses of names in methods. -/
def Stmt.occurrencesRoutines : List (FunctionDecl (Stmt ι)) → List (Occurrence ι)
  | [] => []
  | d :: rest => Stmt.occurrencesRoutine d ++ Stmt.occurrencesRoutines rest
termination_by structural ds => ds

end

end ClassScript
