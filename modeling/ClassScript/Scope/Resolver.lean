import ClassScript.Scope.Resolution

/-!
# The walk that resolves names

The resolver walks over a program once, with a stack of open scopes, the kinds of body and of class
around the place where it stands, and what it has reported so far. A fault is reported and the walk
goes on. `Resolution` says what the walk reports and which scopes it leaves (`Resolver.statement_eq`);
`resolve` is the walk over a whole program.
-/

set_option autoImplicit false

namespace ClassScript

open Resolution (Scopes Routine Enclosing)

/-- The state of the walk: the open scopes, the innermost first, the kinds of body and of class around,
and what has been reported. -/
structure Resolver where
  scopes : Scopes
  routine : Routine
  enclosing : Enclosing
  report : Report
  deriving Repr

namespace Resolver

/-- A part of the walk. -/
abbrev Walk := StateM Resolver

/-- A resolver in front of a program. -/
def new : Resolver :=
  ⟨[], .none, .none, .empty⟩

/-! ## Reports and scopes -/

/-- Reports an error. -/
def error (cause : ScopeCause) (name : Name) : Walk Unit :=
  modify fun r => { r with report := r.report ++ .error cause name }

/-- Reports an error if the condition holds. -/
def errorIf (condition : Bool) (cause : ScopeCause) (name : Name) : Walk Unit :=
  if condition then error cause name else return ()

/-- Notes how many scopes out a name is bound, unless no open scope binds it. -/
def noteUse (id : NodeId) (name : Name) : Walk Unit :=
  modify fun r => { r with report := r.report ++ Resolution.note r.scopes id name }

/-- Opens a scope. -/
def beginScope : Walk Unit :=
  modify fun r => { r with scopes := .empty :: r.scopes }

/-- Closes the innermost scope. -/
def endScope : Walk Unit :=
  modify fun r => { r with scopes := r.scopes.tail }

/-- Announces a name in the innermost scope. -/
def declare (name : Name) : Walk Unit :=
  modify fun r =>
    let (scopes, report) := Resolution.declare r.scopes name
    { r with scopes, report := r.report ++ report }

/-- Binds a name in the innermost scope. -/
def define (name : Name) : Walk Unit :=
  modify fun r => { r with scopes := Resolution.define r.scopes name }

/-- Binds a word in the innermost scope. -/
def bindWord (word : String) : Walk Unit :=
  modify fun r =>
    match r.scopes with
    | [] => r
    | scope :: outer => { r with scopes := scope.insert word true :: outer }

/-- Opens a scope that binds a word. -/
def openWord (word : String) : Walk Unit := do
  beginScope
  bindWord word

/-- Sets the kind of body in which the walk stands. -/
def setRoutine (routine : Routine) : Walk Unit :=
  modify fun r => { r with routine }

/-- Sets the kind of class in which the walk stands. -/
def setEnclosing (enclosing : Enclosing) : Walk Unit :=
  modify fun r => { r with enclosing }

/-! ## Expressions -/

mutual

/-- Walks over an expression. -/
def expression : Expr NodeId → Walk Unit
  | .literal _ => return ()
  | .unary _ operand => expression operand
  | .suffixed operand _ => expression operand
  | .binary left _ right => do
    expression left
    expression right
  | .logical left _ right => do
    expression left
    expression right
  | .grouping inner => expression inner
  | .variable id name => do
    errorIf (Resolution.inInitializer (← get).scopes name) .ownInitializer name
    noteUse id name
  | .assign id name value => do
    expression value
    noteUse id name
  | .call callee _ arguments => do
    expression callee
    expressions arguments
  | .get object _ => expression object
  | .set object _ value => do
    expression value
    expression object
  | .this id keyword => do
    match (← get).enclosing with
    | .none => error .thisOutside keyword
    | _ => noteUse id keyword
  | .super id keyword _ => do
    match (← get).enclosing with
    | .none => error .superOutside keyword
    | .baseClass => error .superWithoutSuperclass keyword
    | .subclass => noteUse id keyword
termination_by structural e => e

/-- Walks over the arguments of a call. -/
def expressions : List (Expr NodeId) → Walk Unit
  | [] => return ()
  | e :: rest => do
    expression e
    expressions rest
termination_by structural es => es

end

/-- Walks over an expression that may be missing. -/
def expressionOption : Option (Expr NodeId) → Walk Unit
  | none => return ()
  | some e => expression e

/-- Walks over the initial values of fields. -/
def fields : List (VarDecl NodeId) → Walk Unit
  | [] => return ()
  | d :: rest => do
    expressionOption d.initializer
    fields rest

/-! ## Statements -/

/-- Announces and binds the parameters of a function. -/
def parameters : List Param → Walk Unit
  | [] => return ()
  | p :: rest => do
    declare p.name
    define p.name
    parameters rest

/-- Walks over the superclass of a class, if it has one, and opens the scope that binds `super`. -/
def superclass (name : Name) : Option (SuperclassRef NodeId) → Walk Unit
  | none => return ()
  | some s => do
    errorIf (s.name.text = name.text) .ownSuperclass s.name
    setEnclosing .subclass
    expression (.variable s.id s.name)
    openWord "super"

/-- Closes the scope that binds `super`, if there is a superclass. -/
def endSuperclass : Option (SuperclassRef NodeId) → Walk Unit
  | none => return ()
  | some _ => endScope

mutual

/-- Walks over a statement. -/
def statement : Stmt NodeId → Walk Unit
  | .expression value => expression value
  | .print value => expression value
  | .var decl => do
    declare decl.name
    expressionOption decl.initializer
    define decl.name
  | .block body => do
    beginScope
    statements body
    endScope
  | .ifThen condition thenBranch => do
    expression condition
    statement thenBranch
  | .ifElse condition thenBranch elseBranch => do
    expression condition
    statement thenBranch
    statement elseBranch
  | .whileLoop condition body => do
    expression condition
    statement body
  | .function decl => do
    declare decl.name
    define decl.name
    function .function decl
  | .returnWith keyword value => do
    errorIf ((← get).routine = .none) .topLevelReturn keyword
    match value with
    | none => return ()
    | some e =>
      errorIf ((← get).routine = .initializer) .initializerReturn keyword
      expression e
  | .classDecl ⟨name, super?, fieldDecls, methodDecls⟩ => do
    let before := (← get).enclosing
    setEnclosing .baseClass
    declare name
    define name
    superclass name super?
    openWord "this"
    fields fieldDecls
    methods name methodDecls
    endScope
    endSuperclass super?
    setEnclosing before
termination_by structural s => s

/-- Walks over statements in order. -/
def statements : List (Stmt NodeId) → Walk Unit
  | [] => return ()
  | s :: rest => do
    statement s
    statements rest
termination_by structural ss => ss

/-- Walks over a function; its parameters and its body share one scope. -/
def function (routine : Routine) : FunctionDecl (Stmt NodeId) → Walk Unit
  | ⟨_, params, _, body⟩ => do
    let before := (← get).routine
    setRoutine routine
    beginScope
    parameters params
    statements body
    endScope
    setRoutine before
termination_by structural d => d

/-- Walks over the methods of a class; the one with the name of the class is its initializer. -/
def methods (className : Name) : List (FunctionDecl (Stmt NodeId)) → Walk Unit
  | [] => return ()
  | m :: rest => do
    function (if m.name.text = className.text then .initializer else .method) m
    methods className rest
termination_by structural ms => ms

end

end Resolver

/-- The report on a program. -/
def resolve (program : List (Stmt NodeId)) : Report :=
  (Resolver.statements program .new).2.report

end ClassScript
