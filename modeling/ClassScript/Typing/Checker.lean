import ClassScript.Typing.Expr

/-!
# What programs are checked for

Statements are checked in order and the first error ends the check. A declaration enters its name
before its body is checked, so functions may call themselves and members may mention their class.
The global names and the classes entered before an error stay entered; the local scopes are those of
before after every statement, also after a faulty one: here the names stand in a list of scopes, which
`Typing.inside` puts back. The checker that runs keeps them in frames and puts back the frame it was in
(`TypeChecker.checkStmt`).
-/

set_option autoImplicit false

namespace ClassScript

/-- The classes and the types of names that a check has entered so far. -/
structure TypeState where
  classes : ClassTable
  scope : TypeScope
  deriving Repr

/-- A check that may enter names and classes. -/
abbrev Check := EStateM TypeError TypeState

namespace Typing

variable {ι σ α : Type}

/-- A question about the current classes and names. -/
def ask (question : ClassTable → TypeScope → Except TypeError α) : Check α := fun st =>
  match question st.classes st.scope with
  | .ok a => .ok a st
  | .error e => .error e st

/-- Binds a name in the innermost scope. -/
def define (name : String) (ty : Ty) : Check Unit :=
  modify fun st => ⟨st.classes, st.scope.define name ty⟩

/-- Changes the classes. -/
def modifyClasses (f : ClassTable → ClassTable) : Check Unit :=
  modify fun st => ⟨f st.classes, st.scope⟩

/-- A check inside inner scopes, after which the outer ones are in force again. -/
def inside (enter : TypeScope → TypeScope) (x : Check α) : Check α := fun st =>
  match x ⟨st.classes, enter st.scope⟩ with
  | .ok a st' => .ok a ⟨st'.classes, st.scope⟩
  | .error e st' => .error e ⟨st'.classes, st.scope⟩

/-! ## Declarations -/

/-- The type that a token names: a basic type, or objects of a class. -/
def namedType (scope : TypeScope) (a : Token) : Except TypeError Ty :=
  match a.kind with
  | .symbol .numberWord => .ok .number
  | .symbol .stringWord => .ok .string
  | .symbol .booleanWord => .ok .boolean
  | .symbol .voidWord => .ok .void
  | _ =>
    match scope.get? a.lexeme with
    | some (.classObject id) => .ok (.object id)
    | _ => .error ⟨.unknownType a.lexeme, a.line⟩

/-- The type that a token names, if there is one. -/
def namedTypeOption (scope : TypeScope) : Option Token → Except TypeError (Option Ty)
  | none => .ok none
  | some a => (namedType scope a).map some

/-- The type of an initial value, if there is one. -/
def initialType (t : ClassTable) (scope : TypeScope) :
    Option (Expr ι) → Except TypeError (Option Ty)
  | none => .ok none
  | some e => (typeOf t scope e).map some

/-- The type of a variable or field from its declared type and the type of its initial value. -/
def variableType (t : ClassTable) (name : Name) (declared initial : Option Ty) :
    Except TypeError Ty :=
  match declared, initial with
  | some d, some i =>
    if t.accepts d i then .ok d
    else .error ⟨.assignment (t.text i) name.text (t.text d), name.line⟩
  | some d, none =>
    if d.requiresInitializer then .error ⟨.uninitialized name.text (t.text d), name.line⟩ else .ok d
  | none, some .void => .error ⟨.voidVariable name.text, name.line⟩
  | none, some i => .ok i
  | none, none => .ok .nil

/-- The type of a variable or field. -/
def declaredType (d : VarDecl ι) (t : ClassTable) (scope : TypeScope) : Except TypeError Ty := do
  let declared ← namedTypeOption scope d.typeName
  let initial ← initialType t scope d.initializer
  variableType t d.name declared initial

/-- The types of parameters, none of which may be `void`. -/
def paramTypes (scope : TypeScope) : List Param → Except TypeError (List Ty)
  | [] => .ok []
  | p :: rest => do
    let ty ← namedType scope p.typeName
    require (!ty.same .void) (.voidParameter p.name.text) p.name.line
    let tys ← paramTypes scope rest
    return ty :: tys

/-- The type of results, `void` without a name. -/
def resultType (scope : TypeScope) : Option Token → Except TypeError Ty
  | none => .ok .void
  | some a => namedType scope a

/-- The signature of a function or a method. -/
def signature (d : FunctionDecl σ) (scope : TypeScope) : Except TypeError Signature := do
  let params ← paramTypes scope d.params
  let result ← resultType scope d.result
  return ⟨d.name.text, params, result⟩

/-- The parameters of a function with their types. -/
def paramScope (params : List Param) (types : List Ty) : Bindings Ty :=
  .ofList ((params.map fun p => p.name.text).zip types)

/-- Whether the body of a function with this result must return a value. -/
def mustReturn : Ty → Bool
  | .void => false
  | .nil => false
  | _ => true

/-! ## Return paths -/

mutual

/-- Whether a statement returns on every path through it; a loop never does. -/
def alwaysReturns : Stmt ι → Bool
  | .returnWith _ _ => true
  | .block body => someReturns body
  | .ifElse _ thenBranch elseBranch => alwaysReturns thenBranch && alwaysReturns elseBranch
  | _ => false
termination_by structural s => s

/-- Whether one of the statements returns on every path through it. -/
def someReturns : List (Stmt ι) → Bool
  | [] => false
  | s :: rest => alwaysReturns s || someReturns rest
termination_by structural ss => ss

end

/-! ## Classes -/

/-- The superclass of a class, which must be a class, and not the class itself. -/
def superclassOf (name : Name) (superclass : Option (SuperclassRef ι)) (t : ClassTable)
    (scope : TypeScope) : Except TypeError (Option ClassId) :=
  match superclass with
  | none => .ok none
  | some s => do
    require (s.name.text != name.text) .ownSuperclass s.name.line
    match ← lookUp scope s.name.text s.name.line with
    | .classObject id => return some id
    | other => .error ⟨.superclass (t.text other), s.name.line⟩

/-- Enters a new class and binds its name. -/
def newClass (name : Name) (superclass : Option ClassId) : Check ClassId := do
  let id := (← get).classes.nextId
  modifyClasses (·.add name.text superclass)
  define name.text (.classObject id)
  return id

/-- Whether two signatures take the same parameters and the result of the second one can stand for
the result of the first. -/
def overrides (t : ClassTable) (inherited s : Signature) : Bool :=
  Ty.sameAll inherited.params s.params && t.accepts inherited.result s.result

/-- Compares a method with the members that the class inherits. -/
def checkOverride (t : ClassTable) (superclass : ClassId) (name : Name) (s : Signature) :
    Except TypeError Unit :=
  match t.findField? superclass name.text with
  | some ty => .error ⟨.methodHidesField name.text (t.text ty), name.line⟩
  | none =>
    match t.findMethod? superclass name.text with
    | some inherited =>
      require (overrides t inherited s)
        (.override name.text (t.name superclass) (t.text inherited.ty) (t.text s.ty)) name.line
    | none => .ok ()

/-- The signature of a method: an initializer has no result, and a method fits the members that the
class inherits. -/
def methodSignature (className : Name) (superclass : Option ClassId) (d : FunctionDecl σ)
    (t : ClassTable) (scope : TypeScope) : Except TypeError Signature := do
  let s ← signature d scope
  require (d.name.text != className.text || s.result.same .void) .initializerResult d.name.line
  match superclass with
  | some id => checkOverride t id d.name s
  | none => pure ()
  return s

/-- Enters the methods of a class, in order, and returns their signatures. -/
def enterMethods (id : ClassId) (className : Name) (superclass : Option ClassId) :
    List (FunctionDecl σ) → Check (List Signature)
  | [] => return []
  | d :: rest => do
    let s ← ask (methodSignature className superclass d)
    modifyClasses (·.addMethod id d.name.text s)
    let others ← enterMethods id className superclass rest
    return s :: others

/-- Compares a field with the methods of the class and the fields that it inherits. -/
def checkField (t : ClassTable) (id : ClassId) (name : Name) (ty : Ty) : Except TypeError Unit := do
  require (t.findMethod? id name.text).isNone (.fieldHidesMethod name.text) name.line
  match (t.superclass? id).bind fun superclass => t.findField? superclass name.text with
  | some inherited =>
    require (inherited.same ty)
      (.fieldRedeclared name.text (t.text inherited) (t.text ty)) name.line
  | none => return ()

/-- The type of a field of a class. -/
def fieldType (id : ClassId) (d : VarDecl ι) (t : ClassTable) (scope : TypeScope) :
    Except TypeError Ty := do
  let ty ← declaredType d t scope
  checkField t id d.name ty
  return ty

/-- Enters the fields of a class, in order. -/
def enterFields (id : ClassId) : List (VarDecl ι) → Check Unit
  | [] => return ()
  | d :: rest => do
    let ty ← ask (fieldType id d)
    modifyClasses (·.addField id d.name.text ty)
    enterFields id rest

/-- The scopes inside a class: one with `this`, in one with `super` if there is a superclass. -/
def enterClass (id : ClassId) (superclass : Option ClassId) (scope : TypeScope) : TypeScope :=
  let outer := match superclass with
    | some s => scope.enter (.single "super" (.object s))
    | none => scope
  outer.enter (.single "this" (.object id))

/-! ## Statements -/

/-- A condition must be a boolean. -/
def checkCondition (keyword : String) (condition : Expr ι) (t : ClassTable) (scope : TypeScope) :
    Except TypeError Unit := do
  let ty ← typeOf t scope condition
  require (ty.same .boolean) (.condition keyword (t.text ty)) condition.line

/-- The value of a `return` must fit the result of the function. -/
def checkReturn (returns : Ty) (keyword : Name) (value : Option (Expr ι)) (t : ClassTable)
    (scope : TypeScope) : Except TypeError Unit := do
  let ty := (← initialType t scope value).getD .nil
  require (t.accepts returns ty) (.returnMismatch (t.text returns) (t.text ty)) keyword.line

/-- A function that must return a value does so on every path. -/
def checkPaths (name : Name) (s : Signature) (body : List (Stmt ι)) (t : ClassTable)
    (_ : TypeScope) : Except TypeError Unit :=
  require (!mustReturn s.result || someReturns body) (.missingReturn name.text (t.text s.result))
    name.line

mutual

/-- Checks a statement in a body with results of type `returns`. -/
def checkStmt (returns : Ty) : Stmt ι → Check Unit
  | .expression value => do
    let _ ← ask fun t scope => typeOf t scope value
  | .print value => do
    let _ ← ask fun t scope => typeOf t scope value
  | .var decl => do
    let ty ← ask (declaredType decl)
    define decl.name.text ty
  | .block body => inside (·.enter .empty) (checkStmts returns body)
  | .ifThen condition thenBranch => do
    ask (checkCondition "if" condition)
    checkStmt returns thenBranch
  | .ifElse condition thenBranch elseBranch => do
    ask (checkCondition "if" condition)
    checkStmt returns thenBranch
    checkStmt returns elseBranch
  | .whileLoop condition body => do
    ask (checkCondition "while" condition)
    checkStmt returns body
  | .function decl => do
    let s ← ask fun _ scope => signature decl scope
    define decl.name.text s.ty
    checkRoutine s decl
  | .returnWith keyword value => ask (checkReturn returns keyword value)
  | .classDecl ⟨name, superclass, fields, methods⟩ => do
    let parent ← ask (superclassOf name superclass)
    let id ← newClass name parent
    let signatures ← enterMethods id name parent methods
    inside (enterClass id parent) do
      enterFields id fields
      checkRoutines signatures methods
termination_by structural s => s

/-- Checks statements in order. -/
def checkStmts (returns : Ty) : List (Stmt ι) → Check Unit
  | [] => return ()
  | s :: rest => do
    checkStmt returns s
    checkStmts returns rest
termination_by structural ss => ss

/-- Checks the body of a function in a scope with its parameters. -/
def checkRoutine (s : Signature) : FunctionDecl (Stmt ι) → Check Unit
  | ⟨name, params, _, body⟩ => do
    inside (·.enter (paramScope params s.params)) (checkStmts s.result body)
    ask (checkPaths name s body)
termination_by structural d => d

/-- Checks the bodies of methods. -/
def checkRoutines (signatures : List Signature) : List (FunctionDecl (Stmt ι)) → Check Unit
  | [] => return ()
  | d :: rest =>
    match signatures with
    | [] => return ()
    | s :: others => do
      checkRoutine s d
      checkRoutines others rest
termination_by structural ds => ds

end

end Typing

/-- What lasts from one program to the next: the classes and the types of the global names. -/
structure Checker where
  classes : ClassTable
  globals : Bindings Ty
  deriving Repr

namespace Checker

/-- A checker that knows the built-in function. -/
def new : Checker :=
  ⟨.empty, .single "clock" (.function "clock" [] .number)⟩

/-- The state in which a program is checked. -/
def start (c : Checker) : TypeState :=
  ⟨c.classes, c.globals, []⟩

/-- The type of an expression over the global names. -/
def typeOf {ι : Type} (c : Checker) (e : Expr ι) : Except TypeError Ty :=
  Typing.typeOf c.classes ⟨c.globals, []⟩ e

/-- Brings earlier global names back. -/
def restore (c : Checker) (globals : Bindings Ty) : Checker :=
  ⟨c.classes, globals⟩

end Checker

end ClassScript
