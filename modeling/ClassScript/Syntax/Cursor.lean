import ClassScript.Syntax.Parser

/-!
# A place among tokens

The parser walks along an array of tokens with an index, and looks at the token at the index and at the
one before. Looking where there is no token is a crash, as is a nesting of calls that is deeper than
allowed: then the parser gives no answer at all. Behind the last token it still looks at the last one, so
the rules must not look before they know that a token is left. The parser has a label for the next place
where a name is used; a label that it has given to a place is not given again.
-/

set_option autoImplicit false

namespace ClassScript

/-- Why the parser gives no answer. -/
inductive Crash where
  | outOfRange
  | tooDeep
  deriving Repr, DecidableEq

/-- Why a rule ends without a value: a fault of the tokens, or a crash. -/
inductive Interrupt where
  | fault (e : SyntaxError)
  | crash (c : Crash)
  deriving Repr, DecidableEq

/-- Labels for the places where names are used; after each one comes another. -/
class Label (ι : Type) where
  next : ι → ι

/-- Nothing is said about these places. -/
@[default_instance]
instance : Label Unit where
  next _ := ()

/-- These places are counted. -/
instance : Label NodeId where
  next id := id + 1

/-- The tokens, the index of the next one, the errors from which the parser has recovered, and the label of
the next place where a name is used. -/
structure Parser (ι : Type := Unit) where
  tokens : Array Token
  current : Nat
  errors : List SyntaxError
  label : ι
  deriving Repr

/-- A rule of a parser with labels. -/
abbrev Labeled (ι : Type) := EStateM Interrupt (Parser ι)

/-- A rule of the parser. -/
abbrev Rule := Labeled Unit

namespace Parser

variable {ι α : Type}

/-- A parser in front of its tokens. -/
def new (tokens : List Token) (label : ι) : Parser ι :=
  ⟨tokens.toArray, 0, [], label⟩

/-- The number of tokens before the end of the source from an index on. -/
def leftFrom (p : Parser ι) (index : Nat) : Nat :=
  (beforeEnd (p.tokens.toList.drop index)).length

/-- Breaks off. -/
def crash (c : Crash) : Labeled ι α :=
  throw (.crash c)

/-- The label of a place where a name is used. -/
def fresh [Label ι] : Labeled ι ι :=
  modifyGet fun p => (p.label, { p with label := Label.next p.label })

/-- The token at an index. -/
def tokenAt (index : Nat) : Labeled ι Token := do
  match (← get).tokens[index]? with
  | some t => return t
  | none => crash .outOfRange

/-- The next token, or the last one if none is left. -/
def peek : Labeled ι Token := do
  let p ← get
  tokenAt (min p.current (p.tokens.size - 1))

/-- The token before the next one. -/
def previous : Labeled ι Token := do
  tokenAt ((← get).current - 1)

/-- Whether no token is left before the end of the source. -/
def isAtEnd : Labeled ι Bool := do
  let p ← get
  if p.tokens.size ≤ p.current then return true
  return (← peek).kind = .eof

/-- Whether the next token is of a kind. -/
def check (kind : TokenKind) : Labeled ι Bool := do
  if ← isAtEnd then return false
  return (← peek).kind = kind

/-- Whether the next token is one of some symbols. -/
def checkAny (symbols : List Symbol) : Labeled ι Bool :=
  symbols.anyM fun s => check (.symbol s)

/-- Goes on by one token, unless none is left, and gives the token before. -/
def advance : Labeled ι Token := do
  if !(← isAtEnd) then modify fun p => { p with current := p.current + 1 }
  previous

/-- Goes past the next token if it is of a kind. -/
def accept (kind : TokenKind) : Labeled ι Bool := do
  if ← check kind then
    let _ ← advance
    return true
  return false

/-- Goes past the next token if it is one of some symbols. -/
def acceptAny (symbols : List Symbol) : Labeled ι Bool :=
  symbols.anyM fun s => accept (.symbol s)

/-- Fails at the next token. -/
def fail (cause : SyntaxCause) : Labeled ι α := do
  let p ← get
  throw (.fault ⟨cause, ← peek, p.leftFrom p.current⟩)

/-- Goes past the next token, which must be of a kind. -/
def consume (kind : TokenKind) (cause : SyntaxCause) : Labeled ι Token := do
  if ← check kind then advance else fail cause

/-- Does something again and again until a test holds. -/
def repeatUntil (test : Labeled ι Bool) (step : Labeled ι α) : Nat → Labeled ι (List α)
  | 0 => crash .tooDeep
  | depth + 1 => do
    if ← test then return []
    let first ← step
    return first :: (← repeatUntil test step depth)

/-- Goes on to the next likely start of a statement: behind a semicolon or before a word that starts
one. -/
def skip : Nat → Labeled ι Unit
  | 0 => crash .tooDeep
  | depth + 1 => do
    if ← isAtEnd then return
    if (← previous).isSymbol .semicolon then return
    if Grammar.startWords.any (← peek).isSymbol then return
    let _ ← advance
    skip depth

/-- Leaves a faulty statement: goes past one token and on to the next likely start of a statement. -/
def synchronize (depth : Nat) : Labeled ι Unit := do
  let _ ← advance
  skip depth

end Parser

end ClassScript
