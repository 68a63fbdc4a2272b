import ClassScript.Syntax.Basic
import ClassScript.Syntax.Outcome

/-!
# Reading expressions

One rule for each level of the grammar, from assignment, which binds loosest and to the right,
through the left-associative levels of operators, to the primary expressions. The rules read the
tokens before the end of the source; `final` is the token to which a message points when they run
out of tokens. Every expression uses a token, which is why the rules terminate.
-/

set_option autoImplicit false

namespace ClassScript.Grammar

variable (final : Token)

/-- An error at the first of the tokens. -/
def errorAt (cause : SyntaxCause) (s : List Token) : SyntaxError :=
  ⟨cause, s.headD final, s.length⟩

/-- A rule that fails at the first of the tokens. -/
def reject {α : Type} (cause : SyntaxCause) (s : List Token) : Outcome true α s :=
  .fail (errorAt final cause s) s (Nat.le_refl _)

/-- One token that passes the test. -/
def expect (test : Token → Bool) (cause : SyntaxCause) : (s : List Token) → Outcome true Token s
  | [] => reject final cause []
  | t :: rest => if test t then .one t t rest else reject final cause (t :: rest)

/-- The given symbol. -/
def expectSymbol (symbol : Symbol) (cause : SyntaxCause) (s : List Token) : Outcome true Token s :=
  expect final (·.isSymbol symbol) cause s

/-- A name. -/
def expectName (cause : SyntaxCause) (s : List Token) : Outcome true Name s :=
  (expect final (·.kind = .identifier) cause s).map Token.toName

/-- The levels of the left-associative operators, from the loosest to the tightest. -/
inductive Level where
  | or
  | and
  | equality
  | comparison
  | term
  | factor
  deriving Repr, DecidableEq

namespace Level

/-- The number of levels from this one to the tightest. -/
def height : Level → Nat
  | or => 6
  | and => 5
  | equality => 4
  | comparison => 3
  | term => 2
  | factor => 1

theorem height_le (level : Level) : level.height ≤ 6 := by
  cases level <;> decide

/-- The operators of a level. -/
def operators : Level → List Symbol
  | or => [.orWord]
  | and => [.andWord]
  | equality => [.bangEqual, .equalEqual]
  | comparison => [.greater, .greaterEqual, .less, .lessEqual]
  | term => [.minus, .plus]
  | factor => [.slash, .star]

/-- Whether a token is an operator of the level. -/
def admits (level : Level) (t : Token) : Bool :=
  level.operators.any t.isSymbol

/-- The expression of an operator of the level. -/
def combine {ι : Type} (level : Level) (left : Expr ι) (operator : Token) (right : Expr ι) :
    Expr ι :=
  match level with
  | or => .logical left operator right
  | and => .logical left operator right
  | _ => .binary left operator right

end Level

/-- The operators in front of an expression. -/
def prefixSymbols : List Symbol :=
  [.bang, .minus, .plusPlus, .minusMinus]

/-- The operators behind an expression. -/
def suffixSymbols : List Symbol :=
  [.plusPlus, .minusMinus]

/-- The greatest number of parameters and of arguments. -/
def maxArity : Nat := 255

/-- The expression that stores `value` in `target`, if `target` is a variable or a property. -/
def assignTo? (target value : Expr Unit) : Option (Expr Unit) :=
  match target with
  | .variable _ name => some (.assign () name value)
  | .get object name => some (.set object name value)
  | _ => none

/-- The operators behind a complete call, of which there is at most one. -/
def suffix (e : Expr Unit) : (s : List Token) → Outcome false (Expr Unit) s
  | [] => .done e []
  | t :: rest =>
    if suffixSymbols.any t.isSymbol then .one (.suffixed e t) t rest else .done e (t :: rest)

/-- The method after `super`. -/
def superAccess (keyword : Name) (s : List Token) : Outcome true (Expr Unit) s :=
  (expectSymbol final .dot .superDot s).andThen fun _ r _ =>
    (expectName final .superMethod r).map fun method => .super () keyword method

mutual

/-- An assignment, or an expression of operators. -/
def expression (s : List Token) : Outcome true (Expr Unit) s :=
  (operators .or s).andThen fun target r _ => assignment target r
termination_by 32 * s.length + 20
decreasing_by all_goals simp_all [Level.height] <;> omega

/-- The value assigned to the expression before, if there is one. -/
def assignment (target : Expr Unit) (s : List Token) : Outcome false (Expr Unit) s :=
  match s with
  | [] => .done target []
  | t :: rest =>
    if t.isSymbol .equal then
      Outcome.past <| (expression rest).andThen fun value r _ =>
        match assignTo? target value with
        | some e => .done e r
        | none => .fail ⟨.invalidTarget, t, rest.length + 1⟩ r (Nat.le_refl _)
    else .done target (t :: rest)
termination_by 32 * s.length

/-- Operands of a level joined by its operators. -/
def operators (level : Level) (s : List Token) : Outcome true (Expr Unit) s :=
  (operand level s).andThen fun left r _ => moreOperands level left r
termination_by 32 * s.length + 2 * level.height + 5

/-- The operators of a level that follow its first operand. -/
def moreOperands (level : Level) (left : Expr Unit) (s : List Token) :
    Outcome false (Expr Unit) s :=
  match s with
  | [] => .done left []
  | t :: rest =>
    if level.admits t then
      Outcome.past <| (operand level rest).andThen fun right r _ =>
        moreOperands level (level.combine left t right) r
    else .done left (t :: rest)
termination_by 32 * s.length
decreasing_by
  all_goals
    have := level.height_le
    simp_all
    omega

/-- An operand of a level: what binds tighter. -/
def operand (level : Level) (s : List Token) : Outcome true (Expr Unit) s :=
  match level with
  | .or => operators .and s
  | .and => operators .equality s
  | .equality => operators .comparison s
  | .comparison => operators .term s
  | .term => operators .factor s
  | .factor => unary s
termination_by 32 * s.length + 2 * level.height + 4
decreasing_by all_goals simp [Level.height]

/-- Operators in front of an expression. -/
def unary (s : List Token) : Outcome true (Expr Unit) s :=
  match s with
  | [] => suffixed []
  | t :: rest =>
    if prefixSymbols.any t.isSymbol then ((unary rest).map (.unary t)).past
    else suffixed (t :: rest)
termination_by 32 * s.length + 5

/-- A call with at most one operator behind it. -/
def suffixed (s : List Token) : Outcome true (Expr Unit) s :=
  (call s).andThen fun e r _ => suffix e r
termination_by 32 * s.length + 4

/-- A primary expression with calls and properties behind it. -/
def call (s : List Token) : Outcome true (Expr Unit) s :=
  (primary s).andThen fun e r _ => moreCalls e r
termination_by 32 * s.length + 3

/-- The calls and properties behind an expression. -/
def moreCalls (e : Expr Unit) (s : List Token) : Outcome false (Expr Unit) s :=
  match s with
  | [] => .done e []
  | t :: rest =>
    if t.isSymbol .leftParen then
      Outcome.past <| (arguments rest).andThen fun found r _ =>
        moreCalls (.call e found.2 found.1) r
    else if t.isSymbol .dot then
      Outcome.past <| (expectName final .propertyName rest).andThen fun name r _ =>
        moreCalls (.get e name) r
    else .done e (t :: rest)
termination_by 32 * s.length

/-- The arguments of a call and the line of the parenthesis that closes them. -/
def arguments (s : List Token) : Outcome true (List (Expr Unit) × Nat) s :=
  match s with
  | [] => argumentList 0 []
  | t :: rest =>
    if t.isSymbol .rightParen then .one ([], t.line) t rest else argumentList 0 (t :: rest)
termination_by 32 * s.length + 22

/-- At least one argument, after `count` others. -/
def argumentList (count : Nat) (s : List Token) : Outcome true (List (Expr Unit) × Nat) s :=
  if maxArity ≤ count then reject final .tooManyArguments s
  else (expression s).andThen fun e r _ => (moreArguments count r).map fun found =>
    (e :: found.1, found.2)
termination_by 32 * s.length + 21

/-- The arguments after a first one, which itself comes after `count` others. -/
def moreArguments (count : Nat) (s : List Token) : Outcome true (List (Expr Unit) × Nat) s :=
  match s with
  | [] => reject final .argumentsClose []
  | t :: rest =>
    if t.isSymbol .comma then (argumentList (count + 1) rest).past
    else if t.isSymbol .rightParen then .one ([], t.line) t rest
    else reject final .argumentsClose (t :: rest)
termination_by 32 * s.length

/-- A constant, a name, `this`, a method of `super`, or an expression in parentheses. -/
def primary (s : List Token) : Outcome true (Expr Unit) s :=
  match s with
  | [] => reject final .expression []
  | t :: rest =>
    match t.kind with
    | .symbol .falseWord => .one (.literal (.boolean false)) t rest
    | .symbol .trueWord => .one (.literal (.boolean true)) t rest
    | .symbol .nilWord => .one (.literal .nil) t rest
    | .number x => .one (.literal (.number x)) t rest
    | .string text => .one (.literal (.string text)) t rest
    | .symbol .thisWord => .one (.this () t.toName) t rest
    | .symbol .superWord => (superAccess final t.toName rest).past
    | .identifier => .one (.variable () t.toName) t rest
    | .symbol .leftParen =>
      Outcome.past <| (expression rest).andThen fun e r _ =>
        (expectSymbol final .rightParen .groupingClose r).map fun _ => .grouping e
    | _ => reject final .expression (t :: rest)
termination_by 32 * s.length + 2

end

end ClassScript.Grammar
