import ClassScript.Syntax.Basic
import ClassScript.Typing.Error
import ClassScript.Typing.Type

/-!
# The types of expressions

`typeOf` finds the type of an expression from the types of the names around it, or the first error
in it. It changes neither the names nor the classes.
-/

set_option autoImplicit false

namespace ClassScript

/-- The types of the names around an expression: the local scopes, innermost first, and the global
names. -/
structure TypeScope where
  globals : Bindings Ty
  locals : List (Bindings Ty)
  deriving Repr

namespace TypeScope

/-- The type of a name in the innermost of the scopes that binds it. -/
def lookupLocal? (name : String) : List (Bindings Ty) → Option Ty
  | [] => none
  | scope :: outer =>
    match scope.get? name with
    | some ty => some ty
    | none => lookupLocal? name outer

/-- The type of a name. -/
def get? (s : TypeScope) (name : String) : Option Ty :=
  match lookupLocal? name s.locals with
  | some ty => some ty
  | none => s.globals.get? name

/-- Binds a name in the innermost scope. -/
def define (s : TypeScope) (name : String) (ty : Ty) : TypeScope :=
  match s.locals with
  | [] => ⟨s.globals.insert name ty, []⟩
  | scope :: outer => ⟨s.globals, scope.insert name ty :: outer⟩

/-- Adds an innermost scope. -/
def enter (s : TypeScope) (scope : Bindings Ty) : TypeScope :=
  ⟨s.globals, scope :: s.locals⟩

end TypeScope

namespace Typing

variable {ι : Type} (t : ClassTable) (scope : TypeScope)

/-- The type of a name used on a line. -/
def lookUp (name : String) (line : Nat) : Except TypeError Ty :=
  match scope.get? name with
  | some ty => .ok ty
  | none => .error ⟨.undefinedVariable name, line⟩

/-- Fails unless the condition holds. -/
def require (condition : Bool) (cause : TypeCause) (line : Nat) : Except TypeError Unit :=
  if condition then .ok () else .error ⟨cause, line⟩

/-- The type of a constant. -/
def literal : Literal → Ty
  | .nil => .nil
  | .boolean _ => .boolean
  | .number _ => .number
  | .string _ => .string

/-- What an operator does with two operands. -/
inductive Operation where
  | add
  | arithmetic
  | multiply
  | compare
  | equate
  deriving Repr, DecidableEq

/-- The operation of a token. -/
def operation? (operator : Token) : Option Operation :=
  match operator.kind with
  | .symbol .plus => some .add
  | .symbol .minus => some .arithmetic
  | .symbol .slash => some .arithmetic
  | .symbol .star => some .multiply
  | .symbol .greater => some .compare
  | .symbol .greaterEqual => some .compare
  | .symbol .less => some .compare
  | .symbol .lessEqual => some .compare
  | .symbol .equalEqual => some .equate
  | .symbol .bangEqual => some .equate
  | _ => none

/-- The type of an operation on operands of two types. -/
def binary (operator : Token) (left right : Ty) : Except TypeError Ty :=
  let mismatch (rule : OperandRule) : Except TypeError Ty :=
    .error ⟨.operands operator.lexeme rule (t.text left) (t.text right), operator.line⟩
  match operation? operator with
  | some .add =>
    match left, right with
    | .number, .number => .ok .number
    | .string, .string => .ok .string
    | _, _ => mismatch .addition
  | some .arithmetic =>
    match left, right with
    | .number, .number => .ok .number
    | _, _ => mismatch .arithmetic
  | some .multiply =>
    match left, right with
    | .number, .number => .ok .number
    | .number, .string => .ok .string
    | .string, .number => .ok .string
    | _, _ => mismatch .repetition
  | some .compare =>
    match left, right with
    | .number, .number => .ok .boolean
    | .string, .string => .ok .boolean
    | .boolean, .boolean => .ok .boolean
    | _, _ => mismatch .comparison
  | some .equate =>
    if left.same right || t.accepts left right || t.accepts right left then .ok .boolean
    else .error ⟨.incomparable (t.text left) (t.text right), operator.line⟩
  | none => .error ⟨.invalidOperator operator.lexeme, operator.line⟩

/-- Compares arguments with parameters, from a position on. -/
def arguments (line : Nat) (callee : String) :
    (position : Nat) → (params args : List Ty) → Except TypeError Unit
  | position, p :: params, a :: args =>
    if t.accepts p a then arguments line callee (position + 1) params args
    else .error ⟨.argument position callee (t.text p) (t.text a), line⟩
  | _, _, _ => .ok ()

/-- Compares the arguments of a call with the parameters of what is called. -/
def checkArguments (line : Nat) (callee : String) (params args : List Ty) :
    Except TypeError Unit := do
  require (params.length == args.length) (.argumentCount params.length args.length) line
  arguments t line callee 1 params args

/-- The parameters of the initializer of a class, none if it has no initializer. -/
def constructorParams (id : ClassId) : List Ty :=
  match t.initializer? id with
  | some s => s.params
  | none => []

/-- The type of a call of something of type `callee`. -/
def call (line : Nat) (callee : Ty) (args : List Ty) : Except TypeError Ty := do
  match callee with
  | .classObject id =>
    checkArguments t line (t.name id) (constructorParams t id) args
    return .object id
  | .function name params result =>
    checkArguments t line name params args
    return result
  | other => .error ⟨.notCallable (t.text other), line⟩

/-- The type of a property of an object: a field, or else a method. -/
def property? (id : ClassId) (name : String) : Option Ty :=
  match t.findField? id name with
  | some ty => some ty
  | none => (t.findMethod? id name).map Signature.ty

/-- The type of a property of something of type `object`. -/
def property (object : Ty) (name : Name) : Except TypeError Ty :=
  match object with
  | .object id =>
    match property? t id name.text with
    | some ty => .ok ty
    | none => .error ⟨.undefinedProperty name.text (t.name id), name.line⟩
  | other => .error ⟨.notObject (t.text other), name.line⟩

/-- The type of a field of something of type `object`. -/
def field (object : Ty) (name : Name) : Except TypeError Ty :=
  match object with
  | .object id =>
    match t.findField? id name.text with
    | some ty => .ok ty
    | none => .error ⟨.undefinedField name.text (t.name id), name.line⟩
  | _ => .error ⟨.fieldOfNoObject, name.line⟩

/-- The type of a method of the superclass. -/
def superMethod (keyword method : Name) : Except TypeError Ty := do
  match ← lookUp scope "super" keyword.line with
  | .object id =>
    match t.findMethod? id method.text with
    | some s => return s.ty
    | none => .error ⟨.undefinedProperty method.text (t.name id), method.line⟩
  | _ => .error ⟨.noSuperclass, keyword.line⟩

/-- The type of an increment or a decrement, whose operand must be a variable. -/
def increment (operand : Expr ι) (operator : Token) : Except TypeError Ty := do
  match operand with
  | .variable _ name =>
    let ty ← lookUp scope name.text name.line
    require (ty.same .number) (.operandNotNumber operator.lexeme (t.text ty)) operator.line
    return .number
  | _ => .error ⟨.operandNotVariable operator.lexeme, operator.line⟩

/-- Whether an operator in front of an expression changes a variable. -/
def isIncrement (operator : Token) : Bool :=
  operator.isSymbol .plusPlus || operator.isSymbol .minusMinus

mutual

/-- The type of an expression, or the first error in it. -/
def typeOf : Expr ι → Except TypeError Ty
  | .literal value => .ok (literal value)
  | .grouping inner => typeOf inner
  | .unary operator operand =>
    if isIncrement operator then increment t scope operand operator
    else do
      let ty ← typeOf operand
      if operator.isSymbol .bang then return .boolean
      require (ty.same .number) (.operandNotNumber operator.lexeme (t.text ty)) operator.line
      return .number
  | .suffixed operand operator => increment t scope operand operator
  | .binary left operator right => do
    let l ← typeOf left
    let r ← typeOf right
    binary t operator l r
  | .logical left operator right => do
    let l ← typeOf left
    let r ← typeOf right
    require (l.same .boolean && r.same .boolean)
      (.operands operator.lexeme .logical (t.text l) (t.text r)) operator.line
    return .boolean
  | .variable _ name => lookUp scope name.text name.line
  | .assign _ name value => do
    let target ← lookUp scope name.text name.line
    let ty ← typeOf value
    require (t.accepts target ty) (.assignment (t.text ty) name.text (t.text target)) name.line
    return target
  | .call callee line args => do
    let f ← typeOf callee
    let tys ← typesOf args
    call t line f tys
  | .get object name => do
    let ty ← typeOf object
    property t ty name
  | .set object name value => do
    let ty ← typeOf object
    let declared ← field t ty name
    let got ← typeOf value
    require (t.accepts declared got)
      (.fieldAssignment (t.text got) name.text (t.text declared)) name.line
    return declared
  | .this _ keyword => lookUp scope "this" keyword.line
  | .super _ keyword method => superMethod t scope keyword method
termination_by structural e => e

/-- The types of the arguments of a call. -/
def typesOf : List (Expr ι) → Except TypeError (List Ty)
  | [] => .ok []
  | e :: rest => do
    let ty ← typeOf e
    let tys ← typesOf rest
    return ty :: tys
termination_by structural es => es

end

end Typing

end ClassScript
