import ClassScript.Number.Shortest
import ClassScript.Syntax.Basic
import ClassScript.Text.Quoted

/-!
# Programs as text

Every expression and statement in prefix form, between parentheses unless it is a name or a
constant; a program has one line for each of its statements.
-/

set_option autoImplicit false

namespace ClassScript

namespace Literal

/-- A number as a constant: an integral one has all its digits and ends in `.0`, any other one the
shortest digits that read back. -/
def numberText (x : Float) : String :=
  match Exact.ofFloat x with
  | .nan => "NaN"
  | .infinite negative => if negative then "-inf" else "inf"
  | .finite negative m q =>
    let sign := if negative then "-" else ""
    if Exact.isWhole m q then sign ++ Decimal.digitText (Exact.floor m q) ++ ".0"
    else sign ++ (Decimal.shortest .awayFromZero m q).positional

/-- A constant as text. -/
def text : Literal → String
  | nil => "nil"
  | boolean true => "true"
  | boolean false => "false"
  | number x => numberText x
  | string s => Text.quoted s

end Literal

variable {ι : Type}

mutual

/-- An expression in prefix form. -/
def Expr.text : Expr ι → String
  | .literal value => value.text
  | .unary operator operand => "(" ++ operator.lexeme ++ " " ++ operand.text ++ ")"
  | .suffixed operand operator => "(post" ++ operator.lexeme ++ " " ++ operand.text ++ ")"
  | .binary left operator right =>
    "(" ++ operator.lexeme ++ " " ++ left.text ++ " " ++ right.text ++ ")"
  | .logical left operator right =>
    "(" ++ operator.lexeme ++ " " ++ left.text ++ " " ++ right.text ++ ")"
  | .grouping inner => "(group " ++ inner.text ++ ")"
  | .variable _ name => name.text
  | .assign _ name value => "(= " ++ name.text ++ " " ++ value.text ++ ")"
  | .call callee _ arguments => "(call " ++ callee.text ++ Expr.argumentTexts arguments ++ ")"
  | .get object name => "(. " ++ object.text ++ " " ++ name.text ++ ")"
  | .set object name value =>
    "(.= " ++ object.text ++ " " ++ name.text ++ " " ++ value.text ++ ")"
  | .this _ _ => "this"
  | .super _ _ method => "(super " ++ method.text ++ ")"
termination_by structural e => e

/-- The arguments of a call, each after a space. -/
def Expr.argumentTexts : List (Expr ι) → String
  | [] => ""
  | a :: rest => " " ++ a.text ++ Expr.argumentTexts rest
termination_by structural arguments => arguments

end

/-- The name of a type after a colon. -/
def typeNameText : Option Token → String
  | none => ""
  | some t => ": " ++ t.lexeme

/-- A variable or field in prefix form. -/
def VarDecl.text (d : VarDecl ι) : String :=
  let value := match d.initializer with
    | none => ""
    | some e => " " ++ e.text
  "(var " ++ d.name.text ++ typeNameText d.typeName ++ value ++ ")"

/-- A parameter with its type. -/
def Param.text (p : Param) : String :=
  p.name.text ++ ": " ++ p.typeName.lexeme

/-- The fields of a class, each after a space. -/
def fieldTexts (fields : List (VarDecl ι)) : String :=
  String.join (fields.map fun f => " " ++ f.text)

/-- The superclass of a class. -/
def superclassText : Option (SuperclassRef ι) → String
  | none => ""
  | some s => " < " ++ s.name.text

/-- A block around the texts of its statements. -/
def inBlock (body : String) : String :=
  "(block" ++ body ++ ")"

mutual

/-- A statement in prefix form. -/
def Stmt.text : Stmt ι → String
  | .expression value => "(; " ++ value.text ++ ")"
  | .print value => "(print " ++ value.text ++ ")"
  | .var decl => decl.text
  | .block body => inBlock (Stmt.bodyTexts body)
  | .ifThen condition thenBranch => "(if " ++ condition.text ++ " " ++ thenBranch.text ++ ")"
  | .ifElse condition thenBranch elseBranch =>
    "(if " ++ condition.text ++ " " ++ thenBranch.text ++ " " ++ elseBranch.text ++ ")"
  | .whileLoop condition body => "(while " ++ condition.text ++ " " ++ body.text ++ ")"
  | .function decl => "(fun " ++ Stmt.functionText decl ++ ")"
  | .returnWith _ none => "(return)"
  | .returnWith _ (some value) => "(return " ++ value.text ++ ")"
  | .classDecl ⟨name, superclass, fields, methods⟩ =>
    "(class " ++ name.text ++ superclassText superclass ++ fieldTexts fields ++
      Stmt.methodTexts methods ++ ")"
termination_by structural s => s

/-- The statements of a block, each after a space. -/
def Stmt.bodyTexts : List (Stmt ι) → String
  | [] => ""
  | s :: rest => " " ++ s.text ++ Stmt.bodyTexts rest
termination_by structural body => body

/-- A function: its header and its body. -/
def Stmt.functionText : FunctionDecl (Stmt ι) → String
  | ⟨name, params, result, body⟩ =>
    name.text ++ "(" ++ ", ".intercalate (params.map Param.text) ++ ")" ++ typeNameText result ++
      " " ++ inBlock (Stmt.bodyTexts body)
termination_by structural decl => decl

/-- The methods of a class, each after a space. -/
def Stmt.methodTexts : List (FunctionDecl (Stmt ι)) → String
  | [] => ""
  | m :: rest => " (method " ++ Stmt.functionText m ++ ")" ++ Stmt.methodTexts rest
termination_by structural methods => methods

end

/-- A program, one line for each statement. -/
def programText (program : List (Stmt ι)) : String :=
  "\n".intercalate (program.map Stmt.text)

end ClassScript
