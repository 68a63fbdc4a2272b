import ClassScript.Token.Basic

/-!
# Programs

Expressions and statements. A place where a variable, `this` or `super` is used carries a label of
type `ι`: the parser has nothing to say there (`Unit`), numbering gives each such place a `NodeId`
of its own. A `for` loop is no statement of its own, it is read as a `while` loop in a block.
-/

set_option autoImplicit false

namespace ClassScript

/-- The identity of a place where a name is used. -/
abbrev NodeId := Nat

/-- A constant in the source. -/
inductive Literal where
  | nil
  | boolean (value : Bool)
  | number (value : Float)
  | string (value : String)
  deriving Repr, DecidableEq

/-- Expressions. A call keeps the line of its closing parenthesis. -/
inductive Expr (ι : Type) where
  | literal (value : Literal)
  | unary (operator : Token) (operand : Expr ι)
  | suffixed (operand : Expr ι) (operator : Token)
  | binary (left : Expr ι) (operator : Token) (right : Expr ι)
  | logical (left : Expr ι) (operator : Token) (right : Expr ι)
  | grouping (inner : Expr ι)
  | variable (id : ι) (name : Name)
  | assign (id : ι) (name : Name) (value : Expr ι)
  | call (callee : Expr ι) (line : Nat) (arguments : List (Expr ι))
  | get (object : Expr ι) (name : Name)
  | set (object : Expr ι) (name : Name) (value : Expr ι)
  | this (id : ι) (keyword : Name)
  | super (id : ι) (keyword method : Name)
  deriving Repr, BEq

/-- The line to which a message about an expression points; a bare literal has none. -/
def Expr.line {ι : Type} : Expr ι → Nat
  | .literal _ => 0
  | .unary operator _ => operator.line
  | .suffixed _ operator => operator.line
  | .binary _ operator _ => operator.line
  | .logical _ operator _ => operator.line
  | .grouping inner => inner.line
  | .variable _ name => name.line
  | .assign _ name _ => name.line
  | .call _ line _ => line
  | .get _ name => name.line
  | .set _ name _ => name.line
  | .this _ keyword => keyword.line
  | .super _ keyword _ => keyword.line

/-- The declaration of a variable or of a field. -/
structure VarDecl (ι : Type) where
  name : Name
  typeName : Option Token
  initializer : Option (Expr ι)
  deriving Repr, BEq

/-- A parameter with its type. -/
structure Param where
  name : Name
  typeName : Token
  deriving Repr, BEq, DecidableEq

/-- The declaration of a function or of a method, with statements of type `σ`; without a result
type it returns nothing. -/
structure FunctionDecl (σ : Type) where
  name : Name
  params : List Param
  result : Option Token
  body : List σ
  deriving Repr, BEq

/-- The use of a variable as a superclass. -/
structure SuperclassRef (ι : Type) where
  id : ι
  name : Name
  deriving Repr, BEq, DecidableEq

/-- The declaration of a class. -/
structure ClassDecl (ι σ : Type) where
  name : Name
  superclass : Option (SuperclassRef ι)
  fields : List (VarDecl ι)
  methods : List (FunctionDecl σ)
  deriving Repr, BEq

/-- Statements. -/
inductive Stmt (ι : Type) where
  | expression (value : Expr ι)
  | print (value : Expr ι)
  | var (decl : VarDecl ι)
  | block (body : List (Stmt ι))
  | ifThen (condition : Expr ι) (thenBranch : Stmt ι)
  | ifElse (condition : Expr ι) (thenBranch elseBranch : Stmt ι)
  | whileLoop (condition : Expr ι) (body : Stmt ι)
  | function (decl : FunctionDecl (Stmt ι))
  | returnWith (keyword : Name) (value : Option (Expr ι))
  | classDecl (decl : ClassDecl ι (Stmt ι))
  deriving Repr

/-- The line of the expression of an expression statement or a print statement. -/
def Stmt.expressionLine? {ι : Type} : Stmt ι → Option Nat
  | .expression value => some value.line
  | .print value => some value.line
  | _ => none

end ClassScript
