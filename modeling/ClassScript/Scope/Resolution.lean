import ClassScript.Scope.Bindings
import ClassScript.Syntax.Basic

/-!
# Where names are found

For every use of a name in a program, how many scopes out the name is bound, and which uses are
misplaced. A use that is found in no scope is global and gets no note. Expressions leave the scopes as
they are, a statement changes the innermost one only, so what a walk over the program reports is a
function of the scopes around it.
-/

set_option autoImplicit false

namespace ClassScript

/-- Why a name or a word must not stand where it does. -/
inductive ScopeCause where
  | redeclared
  | ownInitializer
  | topLevelReturn
  | initializerReturn
  | ownSuperclass
  | thisOutside
  | superOutside
  | superWithoutSuperclass
  deriving Repr, DecidableEq

/-- The cause in words. -/
def ScopeCause.message : ScopeCause → String
  | redeclared => "Already a variable with this name in this scope."
  | ownInitializer => "Can't read local variable in its own initializer."
  | topLevelReturn => "Can't return from top-level code."
  | initializerReturn => "Can't return a value from an initializer."
  | ownSuperclass => "A class can't inherit from itself."
  | thisOutside => "Can't use 'this' outside of a class."
  | superOutside => "Can't use 'super' outside of a class."
  | superWithoutSuperclass => "Can't use 'super' in a class with no superclass."

/-- A misplaced name or word. -/
structure ScopeError where
  cause : ScopeCause
  name : Name
  deriving Repr, DecidableEq

/-- What the walk finds: errors, and the number of scopes between a use and its binding. -/
structure Report where
  errors : List ScopeError
  notes : List (NodeId × Nat)
  deriving Repr

namespace Report

/-- Nothing to report. -/
def empty : Report :=
  ⟨[], []⟩

/-- One error. -/
def error (cause : ScopeCause) (name : Name) : Report :=
  ⟨[⟨cause, name⟩], []⟩

instance : Append Report :=
  ⟨fun a b => ⟨a.errors ++ b.errors, a.notes ++ b.notes⟩⟩

/-- An error if the condition holds. -/
def errorIf (condition : Bool) (cause : ScopeCause) (name : Name) : Report :=
  if condition then error cause name else empty

/-- The number of scopes noted for a use, none for a global name. -/
def depth? (r : Report) (id : NodeId) : Option Nat :=
  r.notes.lookup id

end Report

namespace Resolution

/-- The kind of body in which a `return` stands. -/
inductive Routine where
  | none
  | function
  | method
  | initializer
  deriving Repr, DecidableEq

/-- The kind of class in which `this` and `super` stand. -/
inductive Enclosing where
  | none
  | baseClass
  | subclass
  deriving Repr, DecidableEq

/-- The names of the scopes around a use, the innermost scope first; a name whose initial value is
still being computed is bound to `false`. -/
abbrev Scopes := List (Bindings Bool)

/-- How many scopes out a name is bound. -/
def depth? (name : String) : Scopes → Option Nat
  | [] => none
  | scope :: outer => if scope.contains name then some 0 else (depth? name outer).map (· + 1)

/-- The note for a use of a name. -/
def note (scopes : Scopes) (id : NodeId) (name : Name) : Report :=
  match depth? name.text scopes with
  | some d => ⟨[], [(id, d)]⟩
  | none => .empty

/-- Whether the innermost scope is still computing the initial value of a name. -/
def inInitializer (scopes : Scopes) (name : Name) : Bool :=
  match scopes with
  | [] => false
  | scope :: _ => scope.get? name.text == some false

/-- Binds a name in the innermost scope, if there is one. -/
def define (scopes : Scopes) (name : Name) : Scopes :=
  match scopes with
  | [] => []
  | scope :: outer => scope.insert name.text true :: outer

/-- Announces a name in the innermost scope; a name that is bound there already is an error. -/
def declare (scopes : Scopes) (name : Name) : Scopes × Report :=
  match scopes with
  | [] => ([], .empty)
  | scope :: outer =>
    if scope.contains name.text then (scope :: outer, .error .redeclared name)
    else (scope.insert name.text false :: outer, .empty)

/-- Announces and binds a name. -/
def declareAndDefine (scopes : Scopes) (name : Name) : Scopes × Report :=
  (define (declare scopes name).1 name, (declare scopes name).2)

/-- Announces and binds the parameters of a function. -/
def declareAll (scopes : Scopes) : List Param → Scopes × Report
  | [] => (scopes, .empty)
  | p :: rest =>
    let (scopes, first) := declareAndDefine scopes p.name
    let (scopes, others) := declareAll scopes rest
    (scopes, first ++ others)

mutual

/-- The report on an expression. -/
def expression (enclosing : Enclosing) (scopes : Scopes) : Expr NodeId → Report
  | .literal _ => .empty
  | .unary _ operand => expression enclosing scopes operand
  | .suffixed operand _ => expression enclosing scopes operand
  | .binary left _ right => expression enclosing scopes left ++ expression enclosing scopes right
  | .logical left _ right => expression enclosing scopes left ++ expression enclosing scopes right
  | .grouping inner => expression enclosing scopes inner
  | .variable id name =>
    .errorIf (inInitializer scopes name) .ownInitializer name ++ note scopes id name
  | .assign id name value => expression enclosing scopes value ++ note scopes id name
  | .call callee _ arguments =>
    expression enclosing scopes callee ++ expressions enclosing scopes arguments
  | .get object _ => expression enclosing scopes object
  | .set object _ value =>
    expression enclosing scopes value ++ expression enclosing scopes object
  | .this id keyword =>
    match enclosing with
    | .none => .error .thisOutside keyword
    | _ => note scopes id keyword
  | .super id keyword _ =>
    match enclosing with
    | .none => .error .superOutside keyword
    | .baseClass => .error .superWithoutSuperclass keyword
    | .subclass => note scopes id keyword
termination_by structural e => e

/-- The report on the arguments of a call. -/
def expressions (enclosing : Enclosing) (scopes : Scopes) : List (Expr NodeId) → Report
  | [] => .empty
  | e :: rest => expression enclosing scopes e ++ expressions enclosing scopes rest
termination_by structural es => es

end

/-- The report on an expression that may be missing. -/
def expressionOption (enclosing : Enclosing) (scopes : Scopes) : Option (Expr NodeId) → Report
  | none => .empty
  | some e => expression enclosing scopes e

/-- The report on the initial values of fields. -/
def fields (enclosing : Enclosing) (scopes : Scopes) : List (VarDecl NodeId) → Report
  | [] => .empty
  | f :: rest =>
    expressionOption enclosing scopes f.initializer ++ fields enclosing scopes rest

/-- The report on the superclass of a class: it must not be the class itself. -/
def superclass (scopes : Scopes) (name : Name) : Option (SuperclassRef NodeId) → Report
  | none => .empty
  | some s =>
    .errorIf (s.name.text = name.text) .ownSuperclass s.name ++
      expression .subclass scopes (.variable s.id s.name)

/-- The kind of a class with or without a superclass. -/
def enclosingOf : Option (SuperclassRef NodeId) → Enclosing
  | none => .baseClass
  | some _ => .subclass

/-- The scopes inside a class: one with `this`, in one with `super` if there is a superclass. -/
def classScopes (scopes : Scopes) : Option (SuperclassRef NodeId) → Scopes
  | none => .single "this" true :: scopes
  | some _ => .single "this" true :: .single "super" true :: scopes

mutual

/-- The scopes after a statement and the report on it. -/
def statement (routine : Routine) (enclosing : Enclosing) (scopes : Scopes) :
    Stmt NodeId → Scopes × Report
  | .expression value => (scopes, expression enclosing scopes value)
  | .print value => (scopes, expression enclosing scopes value)
  | .var decl =>
    let (inner, declared) := declare scopes decl.name
    (define inner decl.name, declared ++ expressionOption enclosing inner decl.initializer)
  | .block body => (scopes, (statements routine enclosing (.empty :: scopes) body).2)
  | .ifThen condition thenBranch =>
    let (after, first) := statement routine enclosing scopes thenBranch
    (after, expression enclosing scopes condition ++ first)
  | .ifElse condition thenBranch elseBranch =>
    let (between, first) := statement routine enclosing scopes thenBranch
    let (after, second) := statement routine enclosing between elseBranch
    (after, expression enclosing scopes condition ++ first ++ second)
  | .whileLoop condition body =>
    let (after, inside) := statement routine enclosing scopes body
    (after, expression enclosing scopes condition ++ inside)
  | .function decl =>
    let (after, declared) := declareAndDefine scopes decl.name
    (after, declared ++ function .function enclosing after decl)
  | .returnWith keyword value =>
    (scopes, .errorIf (routine = .none) .topLevelReturn keyword ++
      .errorIf (routine = .initializer && value.isSome) .initializerReturn keyword ++
      expressionOption enclosing scopes value)
  | .classDecl ⟨name, super?, fieldDecls, methodDecls⟩ =>
    let (after, declared) := declareAndDefine scopes name
    let inner := enclosingOf super?
    let inside := classScopes after super?
    (after, declared ++ superclass after name super? ++ fields inner inside fieldDecls ++
      methods inner inside name methodDecls)
termination_by structural s => s

/-- The scopes after statements and the report on them. -/
def statements (routine : Routine) (enclosing : Enclosing) (scopes : Scopes) :
    List (Stmt NodeId) → Scopes × Report
  | [] => (scopes, .empty)
  | s :: rest =>
    let (between, first) := statement routine enclosing scopes s
    let (after, others) := statements routine enclosing between rest
    (after, first ++ others)
termination_by structural ss => ss

/-- The report on a function; its parameters and its body share one scope. -/
def function (routine : Routine) (enclosing : Enclosing) (scopes : Scopes) :
    FunctionDecl (Stmt NodeId) → Report
  | ⟨_, params, _, body⟩ =>
    let (inside, declared) := declareAll (.empty :: scopes) params
    declared ++ (statements routine enclosing inside body).2
termination_by structural d => d

/-- The report on the methods of a class; the one with the name of the class is its initializer. -/
def methods (enclosing : Enclosing) (scopes : Scopes) (className : Name) :
    List (FunctionDecl (Stmt NodeId)) → Report
  | [] => .empty
  | m :: rest =>
    function (if m.name.text = className.text then .initializer else .method) enclosing scopes m ++
      methods enclosing scopes className rest
termination_by structural ms => ms

end

end Resolution

end ClassScript
