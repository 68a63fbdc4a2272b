import ClassScript.Token.Basic

/-!
# Syntax errors

A syntax error names what is wrong, the token to which the message points, and how many tokens are
left from that token on.
-/

set_option autoImplicit false

namespace ClassScript

/-- Whether a function stands on its own or in a class. -/
inductive RoutineKind where
  | function
  | method
  deriving Repr, DecidableEq

/-- The kind in words. -/
def RoutineKind.text : RoutineKind → String
  | function => "function"
  | method => "method"

/-- What is wrong at a token. -/
inductive SyntaxCause where
  | className
  | superclassName
  | classOpen
  | classClose
  | routineName (kind : RoutineKind)
  | routineParameters (kind : RoutineKind)
  | routineBody (kind : RoutineKind)
  | tooManyParameters
  | parameterName
  | parameterColon
  | parametersClose
  | variableName
  | variableEnd
  | typeName
  | forOpen
  | forConditionEnd
  | forClose
  | ifOpen
  | ifClose
  | whileOpen
  | whileClose
  | printEnd
  | returnEnd
  | expressionEnd
  | blockClose
  | invalidTarget
  | propertyName
  | tooManyArguments
  | argumentsClose
  | superDot
  | superMethod
  | groupingClose
  | expression
  deriving Repr, DecidableEq

/-- The cause in words. -/
def SyntaxCause.message : SyntaxCause → String
  | className => "Expect class name."
  | superclassName => "Expect superclass name."
  | classOpen => "Expect '\x7b' before class body."
  | classClose => "Expect '\x7d' after class body."
  | routineName kind => "Expect " ++ kind.text ++ " name."
  | routineParameters kind => "Expect '(' after " ++ kind.text ++ " name."
  | routineBody kind => "Expect '\x7b' before " ++ kind.text ++ " body."
  | tooManyParameters => "Can't have more than 255 parameters."
  | parameterName => "Expect parameter name."
  | parameterColon => "Expect ':' after parameter name."
  | parametersClose => "Expect ')' after parameters."
  | variableName => "Expect variable name."
  | variableEnd => "Expect ';' after variable declaration."
  | typeName => "Expect type name."
  | forOpen => "Expect '(' after 'for'."
  | forConditionEnd => "Expect ';' after loop condition."
  | forClose => "Expect ')' after for clauses."
  | ifOpen => "Expect '(' after 'if'."
  | ifClose => "Expect ')' after if condition."
  | whileOpen => "Expect '(' after 'while'."
  | whileClose => "Expect ')' after condition."
  | printEnd => "Expect ';' after value."
  | returnEnd => "Expect ';' after return value."
  | expressionEnd => "Expect ';' after expression."
  | blockClose => "Expect '\x7d' after block."
  | invalidTarget => "Invalid assignment target."
  | propertyName => "Expect property name after '.'."
  | tooManyArguments => "Can't have more than 255 arguments."
  | argumentsClose => "Expect ')' after arguments."
  | superDot => "Expect '.' after 'super'."
  | superMethod => "Expect superclass method name."
  | groupingClose => "Expect ')' after expression."
  | expression => "Expect expression."

/-- A syntax error; `left` counts the tokens from the faulty one to the end. -/
structure SyntaxError where
  cause : SyntaxCause
  token : Token
  left : Nat
  deriving Repr, DecidableEq

end ClassScript
