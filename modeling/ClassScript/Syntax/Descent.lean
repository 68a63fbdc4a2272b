import ClassScript.Syntax.Cursor

/-!
# Recursive descent

The rules of the grammar as functions of the parser. Rules call each other, and every rule is told how
much deeper calls may be nested; `parse` allows so many that no tokens reach the limit. An error inside a
declaration is kept, and reading goes on at the next likely start of a statement. Every use of a name gets a
label when it is read, and the labels of what an error drops are lost.
-/

set_option autoImplicit false

namespace ClassScript

namespace Parser

open Grammar

variable {ι : Type}

/-! ## Expressions -/

/-- The parenthesis that closes arguments, and its line. -/
def closeArguments (found : List (Expr ι)) : Labeled ι (List (Expr ι) × Nat) := do
  let paren ← consume (.symbol .rightParen) .argumentsClose
  return (found, paren.line)

/-- The assignment of a value to a target, if the target is a variable or a property. A variable that is
assigned to is another place than the one that was read. -/
def assign [Label ι] (target value : Expr ι) : Labeled ι (Option (Expr ι)) := do
  match target with
  | .variable _ name => return some (.assign (← fresh) name value)
  | .get object name => return some (.set object name value)
  | _ => return none

/-- `this`, a method of `super`, a name, or an expression in parentheses, given how to read the latter. -/
def named [Label ι] (inner : Labeled ι (Expr ι)) : Labeled ι (Expr ι) := do
  if ← accept (.symbol .thisWord) then return .this (← fresh) (← previous).toName
  else if ← accept (.symbol .superWord) then
    let keyword ← previous
    let _ ← consume (.symbol .dot) .superDot
    let method ← consume .identifier .superMethod
    return .super (← fresh) keyword.toName method.toName
  else if ← accept .identifier then return .variable (← fresh) (← previous).toName
  else if ← accept (.symbol .leftParen) then
    let e ← inner
    let _ ← consume (.symbol .rightParen) .groupingClose
    return .grouping e
  else fail .expression

mutual

/-- An assignment, or an expression of operators. -/
def expression [Label ι] : Nat → Labeled ι (Expr ι)
  | 0 => crash .tooDeep
  | depth + 1 => do
    let target ← operators depth .or
    if ← accept (.symbol .equal) then
      let equals ← previous
      let p ← get
      let value ← expression depth
      match ← assign target value with
      | some e => return e
      | none => throw (.fault ⟨.invalidTarget, equals, p.leftFrom (p.current - 1)⟩)
    else return target

/-- Operands of a level joined by its operators. -/
def operators [Label ι] : Nat → Level → Labeled ι (Expr ι)
  | 0, _ => crash .tooDeep
  | depth + 1, level => do
    let left ← operand depth level
    moreOperands depth level left

/-- The operators of a level that follow its first operand. -/
def moreOperands [Label ι] : Nat → Level → Expr ι → Labeled ι (Expr ι)
  | 0, _, _ => crash .tooDeep
  | depth + 1, level, left => do
    if ← checkAny level.operators then
      let operator ← advance
      let right ← operand depth level
      moreOperands depth level (level.combine left operator right)
    else return left

/-- An operand of a level: what binds tighter. -/
def operand [Label ι] : Nat → Level → Labeled ι (Expr ι)
  | 0, _ => crash .tooDeep
  | depth + 1, .or => operators depth .and
  | depth + 1, .and => operators depth .equality
  | depth + 1, .equality => operators depth .comparison
  | depth + 1, .comparison => operators depth .term
  | depth + 1, .term => operators depth .factor
  | depth + 1, .factor => unary depth

/-- Operators in front of an expression. -/
def unary [Label ι] : Nat → Labeled ι (Expr ι)
  | 0 => crash .tooDeep
  | depth + 1 => do
    if ← acceptAny prefixSymbols then
      let operator ← previous
      let operand ← unary depth
      return .unary operator operand
    else suffixed depth

/-- A call with at most one operator behind it. -/
def suffixed [Label ι] : Nat → Labeled ι (Expr ι)
  | 0 => crash .tooDeep
  | depth + 1 => do
    let e ← call depth
    if ← acceptAny suffixSymbols then return .suffixed e (← previous) else return e

/-- A primary expression with calls and properties behind it. -/
def call [Label ι] : Nat → Labeled ι (Expr ι)
  | 0 => crash .tooDeep
  | depth + 1 => do
    let e ← primary depth
    moreCalls depth e

/-- The calls and properties behind an expression. -/
def moreCalls [Label ι] : Nat → Expr ι → Labeled ι (Expr ι)
  | 0, _ => crash .tooDeep
  | depth + 1, e => do
    if ← accept (.symbol .leftParen) then
      let found ← arguments depth
      moreCalls depth (.call e found.2 found.1)
    else if ← accept (.symbol .dot) then
      let name ← consume .identifier .propertyName
      moreCalls depth (.get e name.toName)
    else return e

/-- The arguments of a call and the line of the parenthesis that closes them. -/
def arguments [Label ι] : Nat → Labeled ι (List (Expr ι) × Nat)
  | 0 => crash .tooDeep
  | depth + 1 => do
    if ← check (.symbol .rightParen) then closeArguments []
    else
      let found ← argumentList depth 0
      closeArguments found

/-- At least one argument, after `count` others. -/
def argumentList [Label ι] : Nat → Nat → Labeled ι (List (Expr ι))
  | 0, _ => crash .tooDeep
  | depth + 1, count => do
    if maxArity ≤ count then fail .tooManyArguments
    else
      let e ← expression depth
      if ← accept (.symbol .comma) then return e :: (← argumentList depth (count + 1))
      else return [e]

/-- A constant, or what `named` reads. -/
def primary [Label ι] : Nat → Labeled ι (Expr ι)
  | 0 => crash .tooDeep
  | depth + 1 => do
    if ← accept (.symbol .falseWord) then return .literal (.boolean false)
    else if ← accept (.symbol .trueWord) then return .literal (.boolean true)
    else if ← accept (.symbol .nilWord) then return .literal .nil
    else
      let t ← peek
      match t.kind with
      | .number x =>
        let _ ← advance
        return .literal (.number x)
      | .string text =>
        let _ ← advance
        return .literal (.string text)
      | _ => named (expression depth)

end

/-! ## Declarations of variables -/

/-- The name of a type. -/
def typeName : Labeled ι Token := do
  let t ← peek
  if isTypeName t then advance else fail .typeName

/-- A type after a colon, if there is a colon. -/
def typeName? : Labeled ι (Option Token) := do
  if ← accept (.symbol .colon) then return some (← typeName) else return none

/-- An initial value after an equals sign, if there is one. -/
def initializer? [Label ι] (depth : Nat) : Labeled ι (Option (Expr ι)) := do
  if ← accept (.symbol .equal) then return some (← expression depth) else return none

/-- The declaration of a variable or a field, after `var`. -/
def varDeclaration [Label ι] (depth : Nat) : Labeled ι (VarDecl ι) := do
  let name ← consume .identifier .variableName
  let typeName ← typeName?
  let initializer ← initializer? depth
  let _ ← consume (.symbol .semicolon) .variableEnd
  return ⟨name.toName, typeName, initializer⟩

/-! ## Headers -/

/-- A parameter with its type. -/
def parameter : Labeled ι Param := do
  let name ← consume .identifier .parameterName
  let _ ← consume (.symbol .colon) .parameterColon
  let typeName ← typeName
  return ⟨name.toName, typeName⟩

/-- At least one parameter, after `count` others. -/
def parameterList : Nat → Nat → Labeled ι (List Param)
  | 0, _ => crash .tooDeep
  | depth + 1, count => do
    if maxArity ≤ count then fail .tooManyParameters
    else
      let first ← parameter
      if ← accept (.symbol .comma) then return first :: (← parameterList depth (count + 1))
      else return [first]

/-- The parenthesis that closes parameters. -/
def closeParameters (found : List Param) : Labeled ι (List Param) := do
  let _ ← consume (.symbol .rightParen) .parametersClose
  return found

/-- The parameters after an opening parenthesis. -/
def parameters (depth : Nat) : Labeled ι (List Param) := do
  if ← check (.symbol .rightParen) then closeParameters []
  else
    let found ← parameterList depth 0
    closeParameters found

/-- The header of a function or a method: all of it but its body. -/
def header (depth : Nat) (kind : RoutineKind) : Labeled ι (Name × List Param × Option Token) := do
  let name ← consume .identifier (.routineName kind)
  let _ ← consume (.symbol .leftParen) (.routineParameters kind)
  let params ← parameters depth
  let result ← typeName?
  let _ ← consume (.symbol .leftBrace) (.routineBody kind)
  return (name.toName, params, result)

/-- The superclass in the header of a class. -/
def superclass? [Label ι] : Labeled ι (Option (SuperclassRef ι)) := do
  if ← accept (.symbol .less) then
    let name ← consume .identifier .superclassName
    return some ⟨← fresh, name.toName⟩
  else return none

/-- The header of a class, after `class`. -/
def classHeader [Label ι] : Labeled ι (Name × Option (SuperclassRef ι)) := do
  let name ← consume .identifier .className
  let superclass ← superclass?
  let _ ← consume (.symbol .leftBrace) .classOpen
  return (name.toName, superclass)

/-! ## Simple statements -/

/-- An expression and a semicolon. -/
def expressionStatement [Label ι] (depth : Nat) : Labeled ι (Stmt ι) := do
  let e ← expression depth
  let _ ← consume (.symbol .semicolon) .expressionEnd
  return .expression e

/-- The expression after `print`. -/
def printStatement [Label ι] (depth : Nat) : Labeled ι (Stmt ι) := do
  let e ← expression depth
  let _ ← consume (.symbol .semicolon) .printEnd
  return .print e

/-- An expression, unless the closing symbol comes first, and the closing symbol. -/
def expressionUntil [Label ι] (depth : Nat) (close : Symbol) (cause : SyntaxCause) :
    Labeled ι (Option (Expr ι)) := do
  if ← check (.symbol close) then
    let _ ← consume (.symbol close) cause
    return none
  else
    let e ← expression depth
    let _ ← consume (.symbol close) cause
    return some e

/-- The value after `return`, if there is one. -/
def returnStatement [Label ι] (depth : Nat) : Labeled ι (Stmt ι) := do
  let keyword ← previous
  let value ← expressionUntil depth .semicolon .returnEnd
  return .returnWith keyword.toName value

/-- A condition in parentheses. -/
def condition [Label ι] (depth : Nat) (opening closing : SyntaxCause) : Labeled ι (Expr ι) := do
  let _ ← consume (.symbol .leftParen) opening
  let e ← expression depth
  let _ ← consume (.symbol .rightParen) closing
  return e

/-- The first clause of a `for` loop: a variable, an expression or nothing. -/
def forInitializer [Label ι] (depth : Nat) : Labeled ι (Option (Stmt ι)) := do
  if ← accept (.symbol .semicolon) then return none
  else if ← accept (.symbol .varWord) then return some (.var (← varDeclaration depth))
  else return some (← expressionStatement depth)

/-- The clauses after `for`. -/
def forClauses [Label ι] (depth : Nat) : Labeled ι (ForClauses ι) := do
  let _ ← consume (.symbol .leftParen) .forOpen
  let initializer ← forInitializer depth
  let condition ← expressionUntil depth .semicolon .forConditionEnd
  let increment ← expressionUntil depth .rightParen .forClose
  return ⟨initializer, condition, increment⟩

/-! ## Statements and declarations -/

/-- A member of a class. -/
inductive Member (ι : Type := Unit) where
  | field (decl : VarDecl ι)
  | method (decl : FunctionDecl (Stmt ι))

/-- The fields and the methods among members. -/
def Member.split : List (Member ι) → Members ι
  | [] => ([], [])
  | .field f :: rest => (f :: (split rest).1, (split rest).2)
  | .method m :: rest => ((split rest).1, m :: (split rest).2)

/-- The brace that closes a block. -/
def closeBlock (found : List (Option (Stmt ι))) : Labeled ι (List (Stmt ι)) := do
  let _ ← consume (.symbol .rightBrace) .blockClose
  return found.filterMap id

/-- The brace that closes the body of a class. -/
def closeMembers (found : List (Member ι)) : Labeled ι (Members ι) := do
  let _ ← consume (.symbol .rightBrace) .classClose
  return Member.split found

/-- Whether a block or the body of a class is over. -/
def isBodyEnd : Labeled ι Bool := do
  if ← check (.symbol .rightBrace) then return true else isAtEnd

/-- Keeps the error of a faulty rule and goes on at the next likely start of a statement. -/
def recover {α : Type} (depth : Nat) (rule : Labeled ι α) : Labeled ι (Option α) :=
  tryCatch (some <$> rule) fun
    | .fault e => do
      modify fun p => { p with errors := p.errors ++ [e] }
      synchronize depth
      return none
    | .crash c => crash c

mutual

/-- A statement. -/
def statement [Label ι] : Nat → Labeled ι (Stmt ι)
  | 0 => crash .tooDeep
  | depth + 1 => do
    if ← accept (.symbol .forWord) then
      let clauses ← forClauses depth
      let body ← statement depth
      return clauses.loop body
    else if ← accept (.symbol .ifWord) then
      let c ← condition depth .ifOpen .ifClose
      let thenBranch ← statement depth
      if ← accept (.symbol .elseWord) then return .ifElse c thenBranch (← statement depth)
      else return .ifThen c thenBranch
    else if ← accept (.symbol .whileWord) then
      let c ← condition depth .whileOpen .whileClose
      let body ← statement depth
      return .whileLoop c body
    else if ← accept (.symbol .returnWord) then returnStatement depth
    else if ← accept (.symbol .leftBrace) then return .block (← body depth)
    else if ← accept (.symbol .printWord) then printStatement depth
    else expressionStatement depth

/-- The statements of a block and the brace that closes it. -/
def body [Label ι] : Nat → Labeled ι (List (Stmt ι))
  | 0 => crash .tooDeep
  | depth + 1 => do
    let found ← repeatUntil isBodyEnd (declaration depth) depth
    closeBlock found

/-- A declaration or a statement, unless it is faulty. -/
def declaration [Label ι] : Nat → Labeled ι (Option (Stmt ι))
  | 0 => crash .tooDeep
  | depth + 1 => recover depth do
    if ← accept (.symbol .classWord) then classDeclaration depth
    else if ← accept (.symbol .funWord) then return .function (← routine depth .function)
    else if ← accept (.symbol .varWord) then return .var (← varDeclaration depth)
    else statement depth

/-- A function or a method. -/
def routine [Label ι] : Nat → RoutineKind → Labeled ι (FunctionDecl (Stmt ι))
  | 0, _ => crash .tooDeep
  | depth + 1, kind => do
    let found ← header depth kind
    let statements ← body depth
    return ⟨found.1, found.2.1, found.2.2, statements⟩

/-- A class, after `class`. -/
def classDeclaration [Label ι] : Nat → Labeled ι (Stmt ι)
  | 0 => crash .tooDeep
  | depth + 1 => do
    let found ← classHeader
    let members ← repeatUntil isBodyEnd (member depth) depth
    let ms ← closeMembers members
    return .classDecl ⟨found.1, found.2, ms.1, ms.2⟩

/-- A field or a method. -/
def member [Label ι] : Nat → Labeled ι (Member ι)
  | 0 => crash .tooDeep
  | depth + 1 => do
    if ← accept (.symbol .varWord) then return .field (← varDeclaration depth)
    else return .method (← routine depth .method)

end

/-- The statements of a program; the errors are kept by the parser. -/
def program [Label ι] (depth : Nat) : Labeled ι (List (Stmt ι)) := do
  let found ← repeatUntil isAtEnd (declaration depth) depth
  return found.filterMap id

/-! ## The parser -/

/-- The program that the tokens spell, or all syntax errors, if calls are nested at most so deep, and the
label that is next then. -/
def parseFrom {ι : Type} [Label ι] (depth : Nat) (label : ι) (tokens : List Token) :
    Except Crash (Except (List SyntaxError) (List (Stmt ι)) × ι) :=
  if tokens.isEmpty then .ok (.ok [], label)
  else
    match program depth (.new tokens label) with
    | .ok statements p => .ok (if p.errors.isEmpty then .ok statements else .error p.errors, p.label)
    | .error (.fault e) p => .ok (.error (p.errors ++ [e]), p.label)
    | .error (.crash c) _ => .error c

/-- The program without labels that the tokens spell, or all syntax errors. -/
def parseWithin (depth : Nat) (tokens : List Token) :
    Except Crash (Except (List SyntaxError) (List (Stmt Unit))) :=
  (parseFrom depth () tokens).map Prod.fst

/-- How deep calls are nested at most. -/
def depthFor (tokens : List Token) : Nat :=
  64 * (tokens.length + 1)

/-- The program that the tokens spell, or all syntax errors. -/
def parse (tokens : List Token) : Except Crash (Except (List SyntaxError) (List (Stmt Unit))) :=
  parseWithin (depthFor tokens) tokens

end Parser

/-- The program that the tokens spell, or all syntax errors. A crash would have neither, but there is none
(`parse_eq_read`). -/
def parseTokens (tokens : List Token) : Except (List SyntaxError) (List (Stmt Unit)) :=
  match Parser.parse tokens with
  | .ok result => result
  | .error _ => .error []

end ClassScript
