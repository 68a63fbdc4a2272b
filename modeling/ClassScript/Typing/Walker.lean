import ClassScript.Scope.Frames
import ClassScript.Typing.Checker

/-!
# The checker at work

The checker walks a program with the classes it has entered, a store of frames with the types of the
names, the frame it is in, and the type that the results of the body it is in must have. It enters a
frame for every block, every body of a function and every class, in a class one with `super` and then
one with `this`, and it goes back to the frame and to the type of before when that part is done, also
when an error has ended it. The first error ends the walk.
-/

set_option autoImplicit false

namespace ClassScript

/-- The scopes of a chain of frames, nearest first; the last one has the global names. -/
def TypeScope.ofChain : List (Bindings Ty) → TypeScope
  | [] => ⟨.empty, []⟩
  | [globals] => ⟨globals, []⟩
  | scope :: outer => (ofChain outer).enter scope

/-- Whether an expression is the use of a variable. -/
def Expr.isVariable {ι : Type} : Expr ι → Bool
  | .variable _ _ => true
  | _ => false

/-- The checker in the middle of a program: the classes, the types of the names, frame by frame, the
frame that it is in, and the type of the results of the body that it is in. -/
structure TypeChecker where
  classes : ClassTable
  frames : Frames Ty
  environment : FrameId
  returns : Ty
  deriving Repr

namespace TypeChecker

variable {ι σ α : Type}

/-- A part of a walk. -/
abbrev Walk := EStateM TypeError TypeChecker

/-- The frame of the global names. -/
def globalFrame : FrameId := 0

/-- The names around the place where the checker is. -/
def scope (c : TypeChecker) : TypeScope :=
  .ofChain ((c.frames.chain c.environment).map c.frames.vars)

/-- A question about the current classes and names. -/
def ask (question : ClassTable → TypeScope → Except TypeError α) : Walk α := fun c =>
  match question c.classes c.scope with
  | .ok a => .ok a c
  | .error e => .error e c

/-- Binds a name in the current frame. -/
def define (name : String) (ty : Ty) : Walk Unit :=
  modify fun c => { c with frames := c.frames.define c.environment name ty }

/-- Changes the classes. -/
def modifyClasses (f : ClassTable → ClassTable) : Walk Unit :=
  modify fun c => { c with classes := f c.classes }

/-- A new frame inside the current one. -/
def childFrame (vars : Bindings Ty) : Walk FrameId :=
  modifyGet fun c => (c.frames.nextId, { c with frames := c.frames.addChild c.environment vars })

/-- Moves to another frame and tells which one it was before. -/
def replaceEnvironment (frame : FrameId) : Walk FrameId :=
  modifyGet fun c => (c.environment, { c with environment := frame })

/-- Sets the type of results and tells what it was before. -/
def replaceReturns (ty : Ty) : Walk Ty :=
  modifyGet fun c => (c.returns, { c with returns := ty })

/-- A part of a walk whose error is kept for later. -/
def attempt (x : Walk α) : Walk (Except TypeError α) := fun c =>
  match x c with
  | .ok a c' => .ok (.ok a) c'
  | .error e c' => .ok (.error e) c'

/-- Goes on with a value or ends with an error. -/
def settle : Except TypeError α → Walk α
  | .ok a => pure a
  | .error e => throw e

/-- Moves into a new frame inside the current one. -/
def moveInto (vars : Bindings Ty) : Walk Unit := do
  let frame ← childFrame vars
  let _ ← replaceEnvironment frame

/-- A part of a walk in another frame. -/
def inFrame (frame : FrameId) (x : Walk α) : Walk α := do
  let before ← replaceEnvironment frame
  let result ← attempt x
  let _ ← replaceEnvironment before
  settle result

/-- A part of a walk in a new frame inside the current one, with results of another type. -/
def inRoutine (vars : Bindings Ty) (result : Ty) (x : Walk α) : Walk α := do
  let frame ← childFrame vars
  let enclosing ← replaceReturns result
  let outcome ← attempt (inFrame frame x)
  let _ ← replaceReturns enclosing
  settle outcome

/-! ## Expressions -/

/-- The type of a name used on a line. -/
def lookUp (name : String) (line : Nat) : Walk Ty :=
  ask fun _ scope => Typing.lookUp scope name line

/-- Fails unless the condition holds in the current classes. -/
def require (condition : ClassTable → Bool) (cause : ClassTable → TypeCause) (line : Nat) :
    Walk Unit :=
  ask fun t _ => Typing.require (condition t) (cause t) line

/-- The type of an increment or a decrement, whose operand must be a variable. -/
def increment (operand : Expr ι) (operator : Token) (x : Walk Ty) : Walk Ty := do
  require (fun _ => operand.isVariable) (fun _ => .operandNotVariable operator.lexeme) operator.line
  let ty ← x
  require (fun _ => ty.same .number) (fun t => .operandNotNumber operator.lexeme (t.text ty))
    operator.line
  return .number

mutual

/-- The type of an expression. -/
def typeOf : Expr ι → Walk Ty
  | .literal value => return Typing.literal value
  | .grouping inner => typeOf inner
  | .unary operator operand =>
    if Typing.isIncrement operator then increment operand operator (typeOf operand)
    else do
      let ty ← typeOf operand
      if operator.isSymbol .bang then return .boolean
      require (fun _ => ty.same .number) (fun t => .operandNotNumber operator.lexeme (t.text ty))
        operator.line
      return .number
  | .suffixed operand operator => increment operand operator (typeOf operand)
  | .binary left operator right => do
    let l ← typeOf left
    let r ← typeOf right
    ask fun t _ => Typing.binary t operator l r
  | .logical left operator right => do
    let l ← typeOf left
    let r ← typeOf right
    require (fun _ => l.same .boolean && r.same .boolean)
      (fun t => .operands operator.lexeme .logical (t.text l) (t.text r)) operator.line
    return .boolean
  | .variable _ name => lookUp name.text name.line
  | .assign _ name value => do
    let target ← lookUp name.text name.line
    let ty ← typeOf value
    require (fun t => t.accepts target ty)
      (fun t => .assignment (t.text ty) name.text (t.text target)) name.line
    return target
  | .call callee line arguments => do
    let f ← typeOf callee
    let tys ← typesOf arguments
    ask fun t _ => Typing.call t line f tys
  | .get object name => do
    let ty ← typeOf object
    ask fun t _ => Typing.property t ty name
  | .set object name value => do
    let ty ← typeOf object
    let declared ← ask fun t _ => Typing.field t ty name
    let got ← typeOf value
    require (fun t => t.accepts declared got)
      (fun t => .fieldAssignment (t.text got) name.text (t.text declared)) name.line
    return declared
  | .this _ keyword => lookUp "this" keyword.line
  | .super _ keyword method => ask fun t scope => Typing.superMethod t scope keyword method
termination_by structural e => e

/-- The types of the arguments of a call. -/
def typesOf : List (Expr ι) → Walk (List Ty)
  | [] => return []
  | e :: rest => do
    let ty ← typeOf e
    let tys ← typesOf rest
    return ty :: tys
termination_by structural es => es

end

/-- The type of an expression that may be missing. -/
def typeOfOption : Option (Expr ι) → Walk (Option Ty)
  | none => return none
  | some e => do
    let ty ← typeOf e
    return some ty

/-! ## Declarations -/

/-- The type of a variable or field. -/
def declaredType (d : VarDecl ι) : Walk Ty := do
  let declared ← ask fun _ scope => Typing.namedTypeOption scope d.typeName
  let initial ← typeOfOption d.initializer
  ask fun t _ => Typing.variableType t d.name declared initial

/-- The superclass of a class, which must be a class, and not the class itself. -/
def superclassOf (name : Name) : Option (SuperclassRef ι) → Walk (Option ClassId)
  | none => return none
  | some s => do
    require (fun _ => s.name.text != name.text) (fun _ => .ownSuperclass) s.name.line
    let ty ← lookUp s.name.text s.name.line
    ask fun t _ =>
      match ty with
      | .classObject id => .ok (some id)
      | other => .error ⟨.superclass (t.text other), s.name.line⟩

/-- Enters a new class and binds its name. -/
def newClass (name : Name) (superclass : Option ClassId) : Walk ClassId := do
  let id := (← get).classes.nextId
  modifyClasses (·.add name.text superclass)
  define name.text (.classObject id)
  return id

/-- Enters the methods of a class, in order, and returns their signatures. -/
def enterMethods (id : ClassId) (className : Name) (superclass : Option ClassId) :
    List (FunctionDecl σ) → Walk (List Signature)
  | [] => return []
  | d :: rest => do
    let s ← ask (Typing.methodSignature className superclass d)
    modifyClasses (·.addMethod id d.name.text s)
    let others ← enterMethods id className superclass rest
    return s :: others

/-- The type of a field of a class. -/
def fieldType (id : ClassId) (d : VarDecl ι) : Walk Ty := do
  let ty ← declaredType d
  ask fun t _ => Typing.checkField t id d.name ty
  return ty

/-- Enters the fields of a class, in order. -/
def enterFields (id : ClassId) : List (VarDecl ι) → Walk Unit
  | [] => return ()
  | d :: rest => do
    let ty ← fieldType id d
    modifyClasses (·.addField id d.name.text ty)
    enterFields id rest

/-- Moves into a frame with `super` if there is a superclass. -/
def enterSuper : Option ClassId → Walk Unit
  | none => return ()
  | some s => moveInto (.single "super" (.object s))

/-- Moves into a class: into a frame with `super` if there is a superclass, and on into one with
`this`. -/
def enterClass (id : ClassId) (superclass : Option ClassId) : Walk Unit := do
  enterSuper superclass
  moveInto (.single "this" (.object id))

/-! ## Statements -/

/-- A condition must be a boolean. -/
def checkCondition (keyword : String) (condition : Expr ι) : Walk Unit := do
  let ty ← typeOf condition
  require (fun _ => ty.same .boolean) (fun t => .condition keyword (t.text ty)) condition.line

/-- The value of a `return` must fit the result of the function. -/
def checkReturn (keyword : Name) (value : Option (Expr ι)) : Walk Unit := do
  let ty := (← typeOfOption value).getD .nil
  let returns := (← get).returns
  require (fun t => t.accepts returns ty) (fun t => .returnMismatch (t.text returns) (t.text ty))
    keyword.line

mutual

/-- Checks a statement. -/
def checkStmt : Stmt ι → Walk Unit
  | .expression value => do
    let _ ← typeOf value
  | .print value => do
    let _ ← typeOf value
  | .var decl => do
    let ty ← declaredType decl
    define decl.name.text ty
  | .block body => do
    let frame ← childFrame .empty
    inFrame frame (checkStmts body)
  | .ifThen condition thenBranch => do
    checkCondition "if" condition
    checkStmt thenBranch
  | .ifElse condition thenBranch elseBranch => do
    checkCondition "if" condition
    checkStmt thenBranch
    checkStmt elseBranch
  | .whileLoop condition body => do
    checkCondition "while" condition
    checkStmt body
  | .function decl => do
    let s ← ask fun _ scope => Typing.signature decl scope
    define decl.name.text s.ty
    checkRoutine s decl
  | .returnWith keyword value => checkReturn keyword value
  | .classDecl ⟨name, superclass, fields, methods⟩ => do
    let parent ← superclassOf name superclass
    let id ← newClass name parent
    let signatures ← enterMethods id name parent methods
    let outer := (← get).environment
    enterClass id parent
    let result ← attempt do
      enterFields id fields
      checkRoutines signatures methods
    let _ ← replaceEnvironment outer
    settle result
termination_by structural s => s

/-- Checks statements in order. -/
def checkStmts : List (Stmt ι) → Walk Unit
  | [] => return ()
  | s :: rest => do
    checkStmt s
    checkStmts rest
termination_by structural ss => ss

/-- Checks the body of a function in a frame with its parameters. -/
def checkRoutine (s : Signature) : FunctionDecl (Stmt ι) → Walk Unit
  | ⟨name, params, _, body⟩ => do
    inRoutine (Typing.paramScope params s.params) s.result (checkStmts body)
    ask (Typing.checkPaths name s body)
termination_by structural d => d

/-- Checks the bodies of methods. -/
def checkRoutines (signatures : List Signature) : List (FunctionDecl (Stmt ι)) → Walk Unit
  | [] => return ()
  | d :: rest =>
    match signatures with
    | [] => return ()
    | s :: others => do
      checkRoutine s d
      checkRoutines others rest
termination_by structural ds => ds

end

end TypeChecker

namespace Checker

/-- The checker at the start of a program, in the frame of the global names. -/
def walker (c : Checker) : TypeChecker :=
  { classes := c.classes
    frames := Frames.new.restore TypeChecker.globalFrame c.globals
    environment := TypeChecker.globalFrame
    returns := .void }

/-- What lasts of a walk. -/
def ofWalker (c : TypeChecker) : Checker :=
  ⟨c.classes, c.frames.vars TypeChecker.globalFrame⟩

/-- Checks a program; what it entered before an error stays. -/
def check {ι : Type} (c : Checker) (program : List (Stmt ι)) : Except TypeError Unit × Checker :=
  match TypeChecker.checkStmts program c.walker with
  | .ok _ c' => (.ok (), ofWalker c')
  | .error e c' => (.error e, ofWalker c')

end Checker

end ClassScript
