/-!
# Type errors

Why a program is refused, with the types in question as text, and the line to which the message
points.
-/

set_option autoImplicit false

namespace ClassScript

/-- What the operands of an operator must be. -/
inductive OperandRule where
  | addition
  | arithmetic
  | repetition
  | comparison
  | logical
  deriving Repr, DecidableEq

/-- The rule in words. -/
def OperandRule.text : OperandRule → String
  | addition => "two numbers or two strings"
  | arithmetic => "numbers"
  | repetition => "numbers, or a number and a string"
  | comparison => "of the same comparable type"
  | logical => "booleans"

/-- Why a program is refused. -/
inductive TypeCause where
  | undefinedVariable (name : String)
  | returnMismatch (expected got : String)
  | condition (keyword got : String)
  | assignment (got name declared : String)
  | uninitialized (name declared : String)
  | voidVariable (name : String)
  | unknownType (name : String)
  | voidParameter (name : String)
  | missingReturn (name result : String)
  | ownSuperclass
  | superclass (got : String)
  | initializerResult
  | operandNotNumber (operator got : String)
  | operandNotVariable (operator : String)
  | operands (operator : String) (rule : OperandRule) (left right : String)
  | incomparable (left right : String)
  | invalidOperator (operator : String)
  | notCallable (got : String)
  | argumentCount (expected got : Nat)
  | argument (position : Nat) (callee expected got : String)
  | undefinedProperty (name className : String)
  | notObject (got : String)
  | fieldOfNoObject
  | undefinedField (name className : String)
  | fieldAssignment (got name declared : String)
  | noSuperclass
  | methodHidesField (name declared : String)
  | override (name className expected got : String)
  | fieldHidesMethod (name : String)
  | fieldRedeclared (name inherited got : String)
  deriving Repr, DecidableEq

/-- The cause in words. -/
def TypeCause.message : TypeCause → String
  | undefinedVariable name => "Undefined variable '" ++ name ++ "'."
  | returnMismatch expected got =>
    "Return type mismatch: expected " ++ expected ++ ", got " ++ got ++ "."
  | condition keyword got => "Condition of '" ++ keyword ++ "' must be boolean, got " ++ got ++ "."
  | assignment got name declared =>
    "Type mismatch: cannot assign " ++ got ++ " to '" ++ name ++ "' of type " ++ declared ++ "."
  | uninitialized name declared =>
    "'" ++ name ++ "' of type " ++ declared ++ " must be initialized."
  | voidVariable name => "Can't store a void value in '" ++ name ++ "'."
  | unknownType name => "Unknown type '" ++ name ++ "'."
  | voidParameter name => "Parameter '" ++ name ++ "' can't be void."
  | missingReturn name result => "'" ++ name ++ "' must return a " ++ result ++ " on every path."
  | ownSuperclass => "A class can't inherit from itself."
  | superclass got => "Superclass must be a class, got " ++ got ++ "."
  | initializerResult => "An initializer can't declare a return type."
  | operandNotNumber operator got =>
    "Operand of '" ++ operator ++ "' must be a number, got " ++ got ++ "."
  | operandNotVariable operator => "Operand of '" ++ operator ++ "' must be a variable."
  | operands operator rule left right =>
    "Operands of '" ++ operator ++ "' must be " ++ rule.text ++ ", got " ++ left ++ " and " ++
      right ++ "."
  | incomparable left right => "Cannot compare " ++ left ++ " with " ++ right ++ "."
  | invalidOperator operator => "Invalid binary operator '" ++ operator ++ "'."
  | notCallable got => "Can only call functions and classes, got " ++ got ++ "."
  | argumentCount expected got =>
    "Expected " ++ toString expected ++ " arguments but got " ++ toString got ++ "."
  | argument position callee expected got =>
    "Argument " ++ toString position ++ " to '" ++ callee ++ "' must be " ++ expected ++
      ", got " ++ got ++ "."
  | undefinedProperty name className =>
    "Undefined property '" ++ name ++ "' on " ++ className ++ "."
  | notObject got => "Only instances have properties, got " ++ got ++ "."
  | fieldOfNoObject => "Only instances have fields."
  | undefinedField name className => "Undefined field '" ++ name ++ "' on " ++ className ++ "."
  | fieldAssignment got name declared =>
    "Type mismatch: cannot assign " ++ got ++ " to field '" ++ name ++ "' of type " ++ declared ++
      "."
  | noSuperclass => "Can't use 'super' in a class with no superclass."
  | methodHidesField name declared =>
    "Method '" ++ name ++ "' conflicts with inherited field of type " ++ declared ++ "."
  | override name className expected got =>
    "Method '" ++ name ++ "' overrides " ++ className ++ "." ++ name ++
      " with an incompatible signature: expected " ++ expected ++ ", got " ++ got ++ "."
  | fieldHidesMethod name => "Field '" ++ name ++ "' conflicts with a method of the same name."
  | fieldRedeclared name inherited got =>
    "Field '" ++ name ++ "' must keep its inherited type " ++ inherited ++ ", got " ++ got ++ "."

/-- A type error; an error at a bare constant has line 0. -/
structure TypeError where
  cause : TypeCause
  line : Nat
  deriving Repr, DecidableEq

end ClassScript
