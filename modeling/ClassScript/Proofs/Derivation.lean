import ClassScript.Syntax.Parser

/-!
# The grammar

The language as a set of derivations: a rule relates the tokens that it spells to the tree that they
stand for. Operators of one level join to the left, so the rule for a level refers to itself on the
left; assignments and operators in front of an expression join to the right. An `else` belongs to the
nearest `if` that has none: a statement is `dangling` if an `else` behind it would belong to an `if`
inside it, and no such statement stands in front of an `else`.

```text
program     = declaration*
declaration = "class" NAME ( "<" NAME )? "{" ( "var" variable | routine )* "}"
            | "fun" routine | "var" variable | statement
routine     = NAME "(" ( parameter ( "," parameter )* )? ")" ( ":" type )? block
variable    = NAME ( ":" type )? ( "=" expression )? ";"
parameter   = NAME ":" type
expression  = NAME "=" expression | call "." NAME "=" expression | or
call        = primary ( "(" ( expression ( "," expression )* )? ")" | "." NAME )*
```
-/

set_option autoImplicit false

namespace ClassScript.Derives

open Grammar

/-! ## Expressions -/

/-- A token that is an expression on its own. -/
inductive Atom : Token → Expr Unit → Prop
  | falseWord {t : Token} : t.kind = .symbol .falseWord → Atom t (.literal (.boolean false))
  | trueWord {t : Token} : t.kind = .symbol .trueWord → Atom t (.literal (.boolean true))
  | nilWord {t : Token} : t.kind = .symbol .nilWord → Atom t (.literal .nil)
  | number {t : Token} {x : Float} : t.kind = .number x → Atom t (.literal (.number x))
  | string {t : Token} {text : String} : t.kind = .string text → Atom t (.literal (.string text))
  | this {t : Token} : t.kind = .symbol .thisWord → Atom t (.this () t.toName)
  | variable {t : Token} : t.kind = .identifier → Atom t (.variable () t.toName)

mutual

/-- An assignment to a variable or to a property, or operators and their operands. -/
inductive Expression : List Token → Expr Unit → Prop
  | assign {name equal : Token} {ts : List Token} {value : Expr Unit} :
    name.kind = .identifier → equal.kind = .symbol .equal → Expression ts value →
    Expression (name :: equal :: ts) (.assign () name.toName value)
  | set {ts us : List Token} {dot name equal : Token} {object value : Expr Unit} :
    Call ts object → dot.kind = .symbol .dot → name.kind = .identifier →
    equal.kind = .symbol .equal → Expression us value →
    Expression (ts ++ dot :: name :: equal :: us) (.set object name.toName value)
  | operators {ts : List Token} {e : Expr Unit} : Operators .or ts e → Expression ts e

/-- Operands of a level, joined to the left by its operators. -/
inductive Operators : Level → List Token → Expr Unit → Prop
  | operand {level : Level} {ts : List Token} {e : Expr Unit} :
    Operand level ts e → Operators level ts e
  | join {level : Level} {ts us : List Token} {operator : Token} {left right : Expr Unit} :
    Operators level ts left → level.admits operator = true → Operand level us right →
    Operators level (ts ++ operator :: us) (level.combine left operator right)

/-- What a level joins: the next tighter level, or operators in front of an expression. -/
inductive Operand : Level → List Token → Expr Unit → Prop
  | or {ts : List Token} {e : Expr Unit} : Operators .and ts e → Operand .or ts e
  | and {ts : List Token} {e : Expr Unit} : Operators .equality ts e → Operand .and ts e
  | equality {ts : List Token} {e : Expr Unit} : Operators .comparison ts e → Operand .equality ts e
  | comparison {ts : List Token} {e : Expr Unit} : Operators .term ts e → Operand .comparison ts e
  | term {ts : List Token} {e : Expr Unit} : Operators .factor ts e → Operand .term ts e
  | factor {ts : List Token} {e : Expr Unit} : Unary ts e → Operand .factor ts e

/-- Operators in front of a call, and at most one behind it. -/
inductive Unary : List Token → Expr Unit → Prop
  | before {operator : Token} {ts : List Token} {e : Expr Unit} :
    prefixSymbols.any operator.isSymbol = true → Unary ts e →
    Unary (operator :: ts) (.unary operator e)
  | behind {ts : List Token} {operator : Token} {e : Expr Unit} :
    Call ts e → suffixSymbols.any operator.isSymbol = true →
    Unary (ts ++ [operator]) (.suffixed e operator)
  | call {ts : List Token} {e : Expr Unit} : Call ts e → Unary ts e

/-- A primary expression with calls and properties behind it. -/
inductive Call : List Token → Expr Unit → Prop
  | primary {ts : List Token} {e : Expr Unit} : Primary ts e → Call ts e
  | apply {ts us : List Token} {opening closing : Token} {callee : Expr Unit}
      {arguments : List (Expr Unit)} :
    Call ts callee → opening.kind = .symbol .leftParen → Arguments us arguments →
    arguments.length ≤ maxArity → closing.kind = .symbol .rightParen →
    Call (ts ++ opening :: (us ++ [closing])) (.call callee closing.line arguments)
  | get {ts : List Token} {dot name : Token} {object : Expr Unit} :
    Call ts object → dot.kind = .symbol .dot → name.kind = .identifier →
    Call (ts ++ [dot, name]) (.get object name.toName)

/-- The arguments of a call, between its parentheses. -/
inductive Arguments : List Token → List (Expr Unit) → Prop
  | none : Arguments [] []
  | some {ts : List Token} {arguments : List (Expr Unit)} :
    ArgumentList ts arguments → Arguments ts arguments

/-- Arguments with commas between them. -/
inductive ArgumentList : List Token → List (Expr Unit) → Prop
  | one {ts : List Token} {e : Expr Unit} : Expression ts e → ArgumentList ts [e]
  | cons {ts us : List Token} {comma : Token} {e : Expr Unit} {others : List (Expr Unit)} :
    Expression ts e → comma.kind = .symbol .comma → ArgumentList us others →
    ArgumentList (ts ++ comma :: us) (e :: others)

/-- A constant, a name, `this`, a method of `super`, or an expression in parentheses. -/
inductive Primary : List Token → Expr Unit → Prop
  | atom {t : Token} {e : Expr Unit} : Atom t e → Primary [t] e
  | super {keyword dot method : Token} :
    keyword.kind = .symbol .superWord → dot.kind = .symbol .dot → method.kind = .identifier →
    Primary [keyword, dot, method] (.super () keyword.toName method.toName)
  | grouping {opening closing : Token} {ts : List Token} {e : Expr Unit} :
    opening.kind = .symbol .leftParen → Expression ts e → closing.kind = .symbol .rightParen →
    Primary (opening :: (ts ++ [closing])) (.grouping e)

end

/-- An expression that may be missing. -/
inductive Option? : List Token → Option (Expr Unit) → Prop
  | none : Option? [] .none
  | some {ts : List Token} {e : Expr Unit} : Expression ts e → Option? ts (.some e)

/-! ## Variables, parameters and headers -/

/-- A type after a colon, if there is one. -/
inductive TypeName : List Token → Option Token → Prop
  | none : TypeName [] .none
  | some {colon name : Token} : colon.kind = .symbol .colon → isTypeName name = true →
    TypeName [colon, name] (.some name)

/-- An initial value after an equals sign, if there is one. -/
inductive Initializer : List Token → Option (Expr Unit) → Prop
  | none : Initializer [] .none
  | some {equal : Token} {ts : List Token} {e : Expr Unit} :
    equal.kind = .symbol .equal → Expression ts e → Initializer (equal :: ts) (.some e)

/-- The declaration of a variable or a field, after `var`. -/
inductive Variable : List Token → VarDecl Unit → Prop
  | mk {name semicolon : Token} {ts us : List Token} {typeName : Option Token}
      {initializer : Option (Expr Unit)} :
    name.kind = .identifier → TypeName ts typeName → Initializer us initializer →
    semicolon.kind = .symbol .semicolon →
    Variable (name :: (ts ++ (us ++ [semicolon]))) ⟨name.toName, typeName, initializer⟩

/-- A parameter with its type. -/
inductive Parameter : List Token → Param → Prop
  | mk {name colon typeName : Token} :
    name.kind = .identifier → colon.kind = .symbol .colon → isTypeName typeName = true →
    Parameter [name, colon, typeName] ⟨name.toName, typeName⟩

/-- Parameters with commas between them. -/
inductive ParameterList : List Token → List Param → Prop
  | one {ts : List Token} {p : Param} : Parameter ts p → ParameterList ts [p]
  | cons {ts us : List Token} {comma : Token} {p : Param} {others : List Param} :
    Parameter ts p → comma.kind = .symbol .comma → ParameterList us others →
    ParameterList (ts ++ comma :: us) (p :: others)

/-- The parameters of a function, between its parentheses. -/
inductive Parameters : List Token → List Param → Prop
  | none : Parameters [] []
  | some {ts : List Token} {params : List Param} :
    ParameterList ts params → Parameters ts params

/-- The header of a function or a method: all of it but its body. -/
inductive Header : List Token → Name × List Param × Option Token → Prop
  | mk {name opening closing : Token} {ts us : List Token} {params : List Param}
      {result : Option Token} :
    name.kind = .identifier → opening.kind = .symbol .leftParen → Parameters ts params →
    params.length ≤ maxArity → closing.kind = .symbol .rightParen → TypeName us result →
    Header (name :: opening :: (ts ++ closing :: us)) (name.toName, params, result)

/-- The superclass in the header of a class, if there is one. -/
inductive Superclass : List Token → Option (SuperclassRef Unit) → Prop
  | none : Superclass [] .none
  | some {less name : Token} : less.kind = .symbol .less → name.kind = .identifier →
    Superclass [less, name] (.some ⟨(), name.toName⟩)

/-! ## Simple statements -/

/-- The first clause of a loop: a variable, an expression or nothing. -/
inductive FirstClause : List Token → Option (Stmt Unit) → Prop
  | none {semicolon : Token} : semicolon.kind = .symbol .semicolon → FirstClause [semicolon] .none
  | var {keyword : Token} {ts : List Token} {d : VarDecl Unit} :
    keyword.kind = .symbol .varWord → Variable ts d → FirstClause (keyword :: ts) (.some (.var d))
  | expression {ts : List Token} {semicolon : Token} {e : Expr Unit} :
    Expression ts e → semicolon.kind = .symbol .semicolon →
    FirstClause (ts ++ [semicolon]) (.some (.expression e))

/-- The clauses of a loop in parentheses. -/
inductive Clauses : List Token → ForClauses → Prop
  | mk {opening semicolon closing : Token} {ts us vs : List Token} {first : Option (Stmt Unit)}
      {condition increment : Option (Expr Unit)} :
    opening.kind = .symbol .leftParen → FirstClause ts first → Option? us condition →
    semicolon.kind = .symbol .semicolon → Option? vs increment →
    closing.kind = .symbol .rightParen →
    Clauses (opening :: (ts ++ (us ++ semicolon :: (vs ++ [closing]))))
      ⟨first, condition, increment⟩

/-- A condition in parentheses. -/
inductive Condition : List Token → Expr Unit → Prop
  | mk {opening closing : Token} {ts : List Token} {e : Expr Unit} :
    opening.kind = .symbol .leftParen → Expression ts e → closing.kind = .symbol .rightParen →
    Condition (opening :: (ts ++ [closing])) e

/-! ## Statements and declarations -/

mutual

/-- A statement; it is dangling if an `else` behind it would belong to an `if` inside it. -/
inductive Statement : (dangling : Bool) → List Token → Stmt Unit → Prop
  | expression {ts : List Token} {semicolon : Token} {e : Expr Unit} :
    Expression ts e → semicolon.kind = .symbol .semicolon →
    Statement false (ts ++ [semicolon]) (.expression e)
  | print {keyword semicolon : Token} {ts : List Token} {e : Expr Unit} :
    keyword.kind = .symbol .printWord → Expression ts e → semicolon.kind = .symbol .semicolon →
    Statement false (keyword :: (ts ++ [semicolon])) (.print e)
  | returnWith {keyword semicolon : Token} {ts : List Token} {e : Option (Expr Unit)} :
    keyword.kind = .symbol .returnWord → Option? ts e → semicolon.kind = .symbol .semicolon →
    Statement false (keyword :: (ts ++ [semicolon])) (.returnWith keyword.toName e)
  | block {opening : Token} {ts : List Token} {body : List (Stmt Unit)} :
    opening.kind = .symbol .leftBrace → Body ts body →
    Statement false (opening :: ts) (.block body)
  | ifThen {keyword : Token} {ts us : List Token} {condition : Expr Unit}
      {thenBranch : Stmt Unit} {dangling : Bool} :
    keyword.kind = .symbol .ifWord → Condition ts condition → Statement dangling us thenBranch →
    Statement true (keyword :: (ts ++ us)) (.ifThen condition thenBranch)
  | ifElse {keyword other : Token} {ts us vs : List Token} {condition : Expr Unit}
      {thenBranch elseBranch : Stmt Unit} {dangling : Bool} :
    keyword.kind = .symbol .ifWord → Condition ts condition → Statement false us thenBranch →
    other.kind = .symbol .elseWord → Statement dangling vs elseBranch →
    Statement dangling (keyword :: (ts ++ (us ++ other :: vs)))
      (.ifElse condition thenBranch elseBranch)
  | whileLoop {keyword : Token} {ts us : List Token} {condition : Expr Unit} {body : Stmt Unit}
      {dangling : Bool} :
    keyword.kind = .symbol .whileWord → Condition ts condition → Statement dangling us body →
    Statement dangling (keyword :: (ts ++ us)) (.whileLoop condition body)
  | forLoop {keyword : Token} {ts us : List Token} {clauses : ForClauses} {body : Stmt Unit}
      {dangling : Bool} :
    keyword.kind = .symbol .forWord → Clauses ts clauses → Statement dangling us body →
    Statement dangling (keyword :: (ts ++ us)) (clauses.loop body)

/-- The statements of a block and the brace that closes it. -/
inductive Body : List Token → List (Stmt Unit) → Prop
  | nil {closing : Token} : closing.kind = .symbol .rightBrace → Body [closing] []
  | cons {ts us : List Token} {s : Stmt Unit} {rest : List (Stmt Unit)} :
    Declaration ts s → Body us rest → Body (ts ++ us) (s :: rest)

/-- A declaration or a statement. -/
inductive Declaration : List Token → Stmt Unit → Prop
  | classDecl {keyword name opening : Token} {ts us : List Token}
      {superclass : Option (SuperclassRef Unit)} {fields : List (VarDecl Unit)}
      {methods : List (FunctionDecl (Stmt Unit))} :
    keyword.kind = .symbol .classWord → name.kind = .identifier → Superclass ts superclass →
    opening.kind = .symbol .leftBrace → MembersOf us fields methods →
    Declaration (keyword :: name :: (ts ++ opening :: us))
      (.classDecl ⟨name.toName, superclass, fields, methods⟩)
  | function {keyword : Token} {ts : List Token} {d : FunctionDecl (Stmt Unit)} :
    keyword.kind = .symbol .funWord → Routine ts d → Declaration (keyword :: ts) (.function d)
  | var {keyword : Token} {ts : List Token} {d : VarDecl Unit} :
    keyword.kind = .symbol .varWord → Variable ts d → Declaration (keyword :: ts) (.var d)
  | statement {dangling : Bool} {ts : List Token} {s : Stmt Unit} :
    Statement dangling ts s → Declaration ts s

/-- A function or a method. -/
inductive Routine : List Token → FunctionDecl (Stmt Unit) → Prop
  | mk {ts us : List Token} {opening : Token} {name : Name} {params : List Param}
      {result : Option Token} {body : List (Stmt Unit)} :
    Header ts (name, params, result) → opening.kind = .symbol .leftBrace → Body us body →
    Routine (ts ++ opening :: us) ⟨name, params, result, body⟩

/-- The fields and methods of a class, in any order, and the brace that closes it. -/
inductive MembersOf : List Token → List (VarDecl Unit) → List (FunctionDecl (Stmt Unit)) → Prop
  | nil {closing : Token} : closing.kind = .symbol .rightBrace → MembersOf [closing] [] []
  | field {keyword : Token} {ts us : List Token} {d : VarDecl Unit}
      {fields : List (VarDecl Unit)} {methods : List (FunctionDecl (Stmt Unit))} :
    keyword.kind = .symbol .varWord → Variable ts d → MembersOf us fields methods →
    MembersOf (keyword :: (ts ++ us)) (d :: fields) methods
  | method {ts us : List Token} {d : FunctionDecl (Stmt Unit)}
      {fields : List (VarDecl Unit)} {methods : List (FunctionDecl (Stmt Unit))} :
    Routine ts d → MembersOf us fields methods → MembersOf (ts ++ us) fields (d :: methods)

end

/-- Declarations one after the other. -/
inductive Program : List Token → List (Stmt Unit) → Prop
  | nil : Program [] []
  | cons {ts us : List Token} {s : Stmt Unit} {rest : List (Stmt Unit)} :
    Declaration ts s → Program us rest → Program (ts ++ us) (s :: rest)

end ClassScript.Derives
