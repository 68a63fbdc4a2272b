/-!
# Failures of a run

Why a run stops: a fault of the program, with the line to which the message points, or the output
that takes no more text.
-/

set_option autoImplicit false

namespace ClassScript

/-- What is wrong with the operands of an operator. -/
inductive OperandFault where
  | addition
  | arithmetic
  | repetition
  | comparison
  | number
  deriving Repr, DecidableEq

/-- The fault in words. -/
def OperandFault.message : OperandFault → String
  | addition => "Operands must be two numbers or two strings."
  | arithmetic => "Operands must be numbers."
  | repetition => "Operands must be numbers, or a number and a string."
  | comparison => "Operands must be the same type."
  | number => "Operand must be a number."

/-- Why a program cannot go on. -/
inductive RuntimeCause where
  | undefinedVariable (name : String)
  | operands (fault : OperandFault)
  | invalidUnary (operator : String)
  | invalidBinary (operator : String)
  | operandNotVariable (operator : String)
  | repetitionTooLarge
  | notCallable
  | arity (expected got : Nat)
  | notObject
  | fieldOfNoObject
  | undefinedProperty (name : String)
  | superclass
  | superOutsideClass
  | superOutsideMethod
  | native (text : String)
  deriving Repr, DecidableEq

/-- The cause in words. -/
def RuntimeCause.message : RuntimeCause → String
  | undefinedVariable name => "Undefined variable '" ++ name ++ "'."
  | operands fault => fault.message
  | invalidUnary operator => "Invalid unary operator '" ++ operator ++ "'."
  | invalidBinary operator => "Invalid binary operator '" ++ operator ++ "'."
  | operandNotVariable operator => "Operand of '" ++ operator ++ "' must be a variable."
  | repetitionTooLarge => "String repetition is too large."
  | notCallable => "Can only call functions and classes."
  | arity expected got =>
    "Expected " ++ toString expected ++ " arguments but got " ++ toString got ++ "."
  | notObject => "Only instances have properties."
  | fieldOfNoObject => "Only instances have fields."
  | undefinedProperty name => "Undefined property '" ++ name ++ "'."
  | superclass => "Superclass must be a class."
  | superOutsideClass => "Can't use 'super' outside of a class."
  | superOutsideMethod => "Can't use 'super' outside of a method."
  | native text => text

/-- A fault of a running program. -/
structure RuntimeError where
  cause : RuntimeCause
  line : Nat
  deriving Repr, DecidableEq

/-- Why the output takes no more text. -/
inductive SinkError where
  | full
  | flush
  deriving Repr, DecidableEq

/-- The reason in words. -/
def SinkError.message : SinkError → String
  | full => "sink full"
  | flush => "flush failed"

/-- Why a run stops before its end. -/
inductive Stop where
  | fault (e : RuntimeError)
  | output (e : SinkError)
  | outOfFuel
  deriving Repr, DecidableEq

end ClassScript
