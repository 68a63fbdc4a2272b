import ClassScript.Syntax.ExprParser

/-!
# Reading programs

The rules for statements and declarations. A faulty declaration is dropped: its error is kept, the
tokens up to the next likely start of a statement are skipped, and reading goes on, in a block as
well as in a program. A program with errors has no statements, only the errors in the order in
which they were met.
-/

set_option autoImplicit false

namespace ClassScript.Grammar

variable (final : Token)

/-! ## Declarations of variables -/

/-- The tokens that name a type. -/
def isTypeName (t : Token) : Bool :=
  match t.kind with
  | .symbol s => s ∈ [Symbol.numberWord, .stringWord, .booleanWord, .voidWord]
  | .identifier => true
  | _ => false

/-- A type after a colon, if there is a colon. -/
def typeName? (s : List Token) : Outcome false (Option Token) s :=
  match s with
  | [] => .done none []
  | t :: rest =>
    if t.isSymbol .colon then ((expect final isTypeName .typeName rest).map some).past
    else .done none (t :: rest)

/-- An initial value after an equals sign, if there is one. -/
def initializer? (s : List Token) : Outcome false (Option (Expr Unit)) s :=
  match s with
  | [] => .done none []
  | t :: rest =>
    if t.isSymbol .equal then ((expression final rest).map some).past else .done none (t :: rest)

/-- The declaration of a variable or a field, after `var`. -/
def varDeclaration (s : List Token) : Outcome true (VarDecl Unit) s :=
  (expectName final .variableName s).andThen fun name r _ =>
    (typeName? final r).andThen fun typeName r _ =>
      (initializer? final r).andThen fun initializer r _ =>
        (expectSymbol final .semicolon .variableEnd r).map fun _ => ⟨name, typeName, initializer⟩

/-! ## Parameters -/

/-- A parameter with its type. -/
def parameter (s : List Token) : Outcome true Param s :=
  (expectName final .parameterName s).andThen fun name r _ =>
    (expectSymbol final .colon .parameterColon r).andThen fun _ r _ =>
      (expect final isTypeName .typeName r).map fun typeName => ⟨name, typeName⟩

/-- At least one parameter, after `count` others, and the parenthesis that closes the list. -/
def parameterList (count : Nat) (s : List Token) : Outcome true (List Param) s :=
  if maxArity ≤ count then reject final .tooManyParameters s
  else (parameter final s).andThen fun p r _ =>
    match r with
    | [] => reject final .parametersClose []
    | t :: rest =>
      if t.isSymbol .comma then ((parameterList (count + 1) rest).map (p :: ·)).past
      else if t.isSymbol .rightParen then .one [p] t rest
      else reject final .parametersClose (t :: rest)
termination_by s.length
decreasing_by simp_all; omega

/-- The parameters after an opening parenthesis. -/
def parameters (s : List Token) : Outcome true (List Param) s :=
  match s with
  | [] => parameterList final 0 []
  | t :: rest =>
    if t.isSymbol .rightParen then .one [] t rest else parameterList final 0 (t :: rest)

/-- The header of a function or a method: all of it but its body. -/
def header (kind : RoutineKind) (s : List Token) :
    Outcome true (Name × List Param × Option Token) s :=
  (expectName final (.routineName kind) s).andThen fun name r _ =>
    (expectSymbol final .leftParen (.routineParameters kind) r).andThen fun _ r _ =>
      (parameters final r).andThen fun params r _ =>
        (typeName? final r).andThen fun result r _ =>
          (expectSymbol final .leftBrace (.routineBody kind) r).map fun _ => (name, params, result)

/-! ## Simple statements -/

/-- An expression and a semicolon. -/
def expressionStatement (s : List Token) : Outcome true (Stmt Unit) s :=
  (expression final s).andThen fun e r _ =>
    (expectSymbol final .semicolon .expressionEnd r).map fun _ => .expression e

/-- The expression after `print`. -/
def printStatement (s : List Token) : Outcome true (Stmt Unit) s :=
  (expression final s).andThen fun e r _ =>
    (expectSymbol final .semicolon .printEnd r).map fun _ => .print e

/-- An expression, unless the closing symbol comes first, and the closing symbol. -/
def expressionUntil (close : Symbol) (cause : SyntaxCause) (s : List Token) :
    Outcome true (Option (Expr Unit)) s :=
  match s with
  | [] => reject final .expression []
  | t :: rest =>
    if t.isSymbol close then .one none t rest
    else (expression final (t :: rest)).andThen fun e r _ =>
      (expectSymbol final close cause r).map fun _ => some e

/-- The value after `return`, if there is one. -/
def returnStatement (keyword : Name) (s : List Token) : Outcome true (Stmt Unit) s :=
  (expressionUntil final .semicolon .returnEnd s).map (.returnWith keyword)

/-- A condition in parentheses. -/
def condition (opening closing : SyntaxCause) (s : List Token) : Outcome true (Expr Unit) s :=
  (expectSymbol final .leftParen opening s).andThen fun _ r _ =>
    (expression final r).andThen fun e r _ =>
      (expectSymbol final .rightParen closing r).map fun _ => e

/-! ## Loops -/

/-- The first clause of a `for` loop: a variable, an expression or nothing. -/
def forInitializer (s : List Token) : Outcome true (Option (Stmt Unit)) s :=
  match s with
  | [] => (expressionStatement final []).map some
  | t :: rest =>
    if t.isSymbol .semicolon then .one none t rest
    else if t.isSymbol .varWord then
      ((varDeclaration final rest).map fun d => some (.var d)).past
    else (expressionStatement final (t :: rest)).map some

/-- The clauses of a `for` loop in parentheses. -/
structure ForClauses (ι : Type := Unit) where
  initializer : Option (Stmt ι)
  condition : Option (Expr ι)
  increment : Option (Expr ι)

/-- The clauses after `for`. -/
def forClauses (s : List Token) : Outcome true ForClauses s :=
  (expectSymbol final .leftParen .forOpen s).andThen fun _ r _ =>
    (forInitializer final r).andThen fun initializer r _ =>
      (expressionUntil final .semicolon .forConditionEnd r).andThen fun condition r _ =>
        (expressionUntil final .rightParen .forClose r).map fun increment =>
          ⟨initializer, condition, increment⟩

/-- A `for` loop as a `while` loop: the increment runs after the body, a missing condition is true,
and the initializer shares a block with the loop. -/
def ForClauses.loop {ι : Type} (clauses : ForClauses ι) (body : Stmt ι) : Stmt ι :=
  let round := match clauses.increment with
    | none => body
    | some e => .block [body, .expression e]
  let loop := .whileLoop (clauses.condition.getD (.literal (.boolean true))) round
  match clauses.initializer with
  | none => loop
  | some first => .block [first, loop]

/-! ## Recovery -/

/-- The reserved words that start a statement. -/
def startWords : List Symbol :=
  [.classWord, .funWord, .varWord, .forWord, .ifWord, .whileWord, .printWord, .returnWord]

/-- The tokens from the next likely start of a statement on: after a semicolon or at a word that
starts one. `last` is the token before. -/
def resume (last : Token) : List Token → List Token
  | [] => []
  | t :: rest =>
    if last.isSymbol .semicolon || startWords.any t.isSymbol then t :: rest else resume t rest

theorem length_resume_le (last : Token) (s : List Token) : (resume last s).length ≤ s.length := by
  induction s generalizing last with
  | nil => simp [resume]
  | cons t rest ih =>
    unfold resume
    split
    · exact Nat.le_refl _
    · exact Nat.le_succ_of_le (ih t)

/-- The tokens at which reading goes on after an error; at least one token is skipped. -/
def synchronize : List Token → List Token
  | [] => []
  | t :: rest => resume t rest

theorem length_synchronize_le (s : List Token) : (synchronize s).length ≤ s.length - 1 := by
  cases s with
  | nil => simp [synchronize]
  | cons t rest => simpa [synchronize] using length_resume_le t rest

/-- What became of a declaration: its errors, its statement unless it was faulty, and the tokens
after it. -/
structure Declared (s : List Token) where
  errors : List SyntaxError
  statement : Option (Stmt Unit)
  rest : List Token
  fewer : rest.length < s.length

/-- Drops a faulty declaration and goes on at the next likely start of a statement. -/
def recover (t : Token) (s : List Token) (x : Reply true (Stmt Unit) (t :: s)) :
    Declared (t :: s) :=
  match x.outcome with
  | .ok v r h => ⟨x.log, some v, r, by simp at h ⊢; omega⟩
  | .fail e r h => ⟨x.log ++ [e], none, synchronize r, by
      have := length_synchronize_le r
      simp only [List.length_cons] at h ⊢
      omega⟩

/-! ## Statements and declarations -/

/-- The superclass in the header of a class. -/
def superclass? (s : List Token) : Outcome false (Option (SuperclassRef Unit)) s :=
  match s with
  | [] => .done none []
  | t :: rest =>
    if t.isSymbol .less then
      ((expectName final .superclassName rest).map fun name => some ⟨(), name⟩).past
    else .done none (t :: rest)

/-- The header of a class, after `class`. -/
def classHeader (s : List Token) : Outcome true (Name × Option (SuperclassRef Unit)) s :=
  (expectName final .className s).andThen fun name r _ =>
    (superclass? final r).andThen fun superclass r _ =>
      (expectSymbol final .leftBrace .classOpen r).map fun _ => (name, superclass)

/-- The fields and methods of a class. -/
abbrev Members (ι : Type := Unit) := List (VarDecl ι) × List (FunctionDecl (Stmt ι))

mutual

/-- A statement. -/
def statement (s : List Token) : Reply true (Stmt Unit) s :=
  match s with
  | [] => .quiet (expressionStatement final [])
  | t :: rest =>
    match t.kind with
    | .symbol .forWord =>
      Reply.past <| (Reply.quiet (forClauses final rest)).andThen fun clauses r _ =>
        (statement r).map clauses.loop
    | .symbol .ifWord =>
      Reply.past <| (Reply.quiet (condition final .ifOpen .ifClose rest)).andThen fun c r _ =>
        (statement r).andThen fun thenBranch r _ => elseBranch c thenBranch r
    | .symbol .whileWord =>
      Reply.past <| (Reply.quiet (condition final .whileOpen .whileClose rest)).andThen fun c r _ =>
        (statement r).map (.whileLoop c)
    | .symbol .returnWord => .quiet (returnStatement final t.toName rest).past
    | .symbol .leftBrace => ((body rest).map .block).past
    | .symbol .printWord => .quiet (printStatement final rest).past
    | _ => .quiet (expressionStatement final (t :: rest))
termination_by 8 * s.length + 1

/-- The rest of an `if` statement after its first branch. -/
def elseBranch (c : Expr Unit) (thenBranch : Stmt Unit) (s : List Token) :
    Reply false (Stmt Unit) s :=
  match s with
  | [] => .quiet (.done (.ifThen c thenBranch) [])
  | t :: rest =>
    if t.isSymbol .elseWord then ((statement rest).map (.ifElse c thenBranch)).past
    else .quiet (.done (.ifThen c thenBranch) (t :: rest))
termination_by 8 * s.length

/-- The statements of a block and the brace that closes it. -/
def body (s : List Token) : Reply true (List (Stmt Unit)) s :=
  match s with
  | [] => .quiet (reject final .blockClose [])
  | t :: rest =>
    if t.isSymbol .rightBrace then .quiet (.one [] t rest)
    else
      match declaration t rest with
      | ⟨errors, first, r, fewer⟩ =>
        let others := (body r).map (first.toList ++ ·)
        ⟨errors ++ others.log, others.outcome.within (Nat.le_of_lt fewer)⟩
termination_by 8 * s.length + 3
decreasing_by all_goals simp_all <;> omega

/-- A declaration or a statement. -/
def declaration (t : Token) (s : List Token) : Declared (t :: s) :=
  match t.kind with
  | .symbol .classWord => recover t s (classDeclaration s).past
  | .symbol .funWord => recover t s ((routine .function s).map .function).past
  | .symbol .varWord => recover t s (.quiet ((varDeclaration final s).map .var).past)
  | _ => recover t s (statement (t :: s))
termination_by 8 * s.length + 10

/-- A function or a method. -/
def routine (kind : RoutineKind) (s : List Token) : Reply true (FunctionDecl (Stmt Unit)) s :=
  (Reply.quiet (header final kind s)).andThen fun found r _ =>
    (body r).map fun statements => ⟨found.1, found.2.1, found.2.2, statements⟩
termination_by 8 * s.length
decreasing_by simp_all; omega

/-- A class, after `class`. -/
def classDeclaration (s : List Token) : Reply true (Stmt Unit) s :=
  (Reply.quiet (classHeader final s)).andThen fun found r _ =>
    (members r).map fun ms => .classDecl ⟨found.1, found.2, ms.1, ms.2⟩
termination_by 8 * s.length
decreasing_by simp_all; omega

/-- The fields and methods of a class and the brace that closes it. -/
def members (s : List Token) : Reply true Members s :=
  match s with
  | [] => .quiet (reject final .classClose [])
  | t :: rest =>
    if t.isSymbol .rightBrace then .quiet (.one ([], []) t rest)
    else if t.isSymbol .varWord then
      Reply.past <| (Reply.quiet (varDeclaration final rest)).andThen fun f r _ =>
        (members r).map fun ms => (f :: ms.1, ms.2)
    else (routine .method (t :: rest)).andThen fun m r _ =>
      (members r).map fun ms => (ms.1, m :: ms.2)
termination_by 8 * s.length + 1
decreasing_by all_goals simp_all <;> omega

end

/-- The errors and the statements of a program. -/
def program (s : List Token) : List SyntaxError × List (Stmt Unit) :=
  match s with
  | [] => ([], [])
  | t :: rest =>
    match declaration final t rest with
    | ⟨errors, first, r, _⟩ =>
      let others := program r
      (errors ++ others.1, first.toList ++ others.2)
termination_by s.length
decreasing_by simp_all

end ClassScript.Grammar

namespace ClassScript

/-- The tokens before the end of the source. -/
def beforeEnd (tokens : List Token) : List Token :=
  tokens.takeWhile fun t => t.kind ≠ .eof

/-- The token to which messages about the end of the source point: the first end of the source, or
else the last token. -/
def finalToken? (tokens : List Token) : Option Token :=
  (tokens.find? fun t => t.kind = .eof).or tokens.getLast?

/-- The program that the grammar finds in the tokens, or all syntax errors. -/
def Grammar.read (tokens : List Token) : Except (List SyntaxError) (List (Stmt Unit)) :=
  match finalToken? tokens with
  | none => .ok []
  | some final =>
    match Grammar.program final (beforeEnd tokens) with
    | ([], statements) => .ok statements
    | (errors, _) => .error errors

end ClassScript
