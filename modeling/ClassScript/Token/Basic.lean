/-!
# Tokens

A token has a kind, the text it was read from and the line on which that text ends. The kinds are
the fixed symbols (punctuation and reserved words), names, literals with their payload, and the end
of the source.
-/

set_option autoImplicit false

namespace ClassScript

/-- The tokens of one spelling: punctuation and reserved words. -/
inductive Symbol where
  | leftParen
  | rightParen
  | leftBrace
  | rightBrace
  | comma
  | dot
  | colon
  | minus
  | minusMinus
  | plus
  | plusPlus
  | semicolon
  | slash
  | star
  | bang
  | bangEqual
  | equal
  | equalEqual
  | greater
  | greaterEqual
  | less
  | lessEqual
  | andWord
  | classWord
  | elseWord
  | falseWord
  | funWord
  | forWord
  | ifWord
  | nilWord
  | orWord
  | printWord
  | returnWord
  | superWord
  | thisWord
  | trueWord
  | varWord
  | whileWord
  | numberWord
  | stringWord
  | booleanWord
  | voidWord
  deriving Repr, DecidableEq

namespace Symbol

/-- The reserved words and their spellings. -/
def words : List (String × Symbol) := [
  ("and", andWord), ("class", classWord), ("else", elseWord), ("false", falseWord),
  ("fun", funWord), ("for", forWord), ("if", ifWord), ("nil", nilWord), ("or", orWord),
  ("print", printWord), ("return", returnWord), ("super", superWord), ("this", thisWord),
  ("true", trueWord), ("var", varWord), ("while", whileWord), ("number", numberWord),
  ("string", stringWord), ("boolean", booleanWord), ("void", voidWord)]

/-- The symbol that a reserved word stands for. -/
def ofWord? (s : String) : Option Symbol :=
  words.lookup s

/-- The symbol of two characters. -/
def ofPair? : Char → Char → Option Symbol
  | '-', '-' => some minusMinus
  | '+', '+' => some plusPlus
  | '!', '=' => some bangEqual
  | '=', '=' => some equalEqual
  | '<', '=' => some lessEqual
  | '>', '=' => some greaterEqual
  | _, _ => none

/-- The symbol of one character. -/
def ofChar? : Char → Option Symbol
  | '(' => some leftParen
  | ')' => some rightParen
  | '\x7b' => some leftBrace
  | '\x7d' => some rightBrace
  | ',' => some comma
  | '.' => some dot
  | ':' => some colon
  | ';' => some semicolon
  | '*' => some star
  | '/' => some slash
  | '-' => some minus
  | '+' => some plus
  | '!' => some bang
  | '=' => some equal
  | '<' => some less
  | '>' => some greater
  | _ => none

/-- The name of a symbol in token listings. -/
def name : Symbol → String
  | leftParen => "LEFT_PAREN"
  | rightParen => "RIGHT_PAREN"
  | leftBrace => "LEFT_BRACE"
  | rightBrace => "RIGHT_BRACE"
  | comma => "COMMA"
  | dot => "DOT"
  | colon => "COLON"
  | minus => "MINUS"
  | minusMinus => "MINUS_MINUS"
  | plus => "PLUS"
  | plusPlus => "PLUS_PLUS"
  | semicolon => "SEMICOLON"
  | slash => "SLASH"
  | star => "STAR"
  | bang => "BANG"
  | bangEqual => "BANG_EQUAL"
  | equal => "EQUAL"
  | equalEqual => "EQUAL_EQUAL"
  | greater => "GREATER"
  | greaterEqual => "GREATER_EQUAL"
  | less => "LESS"
  | lessEqual => "LESS_EQUAL"
  | andWord => "AND"
  | classWord => "CLASS"
  | elseWord => "ELSE"
  | falseWord => "FALSE"
  | funWord => "FUN"
  | forWord => "FOR"
  | ifWord => "IF"
  | nilWord => "NIL"
  | orWord => "OR"
  | printWord => "PRINT"
  | returnWord => "RETURN"
  | superWord => "SUPER"
  | thisWord => "THIS"
  | trueWord => "TRUE"
  | varWord => "VAR"
  | whileWord => "WHILE"
  | numberWord => "TYPE_NUMBER"
  | stringWord => "TYPE_STRING"
  | booleanWord => "TYPE_BOOLEAN"
  | voidWord => "TYPE_VOID"

/-- All symbols. -/
def all : List Symbol :=
  [leftParen, rightParen, leftBrace, rightBrace, comma, dot, colon, minus, minusMinus, plus,
    plusPlus, semicolon, slash, star, bang, bangEqual, equal, equalEqual, greater, greaterEqual,
    less, lessEqual] ++ words.map (·.2)

/-- The symbol with this name in token listings. -/
def ofName? (s : String) : Option Symbol :=
  all.find? fun symbol => symbol.name == s

end Symbol

/-- What a token is, with the payload of a literal. -/
inductive TokenKind where
  | symbol (s : Symbol)
  | identifier
  | string (value : String)
  | number (value : Float)
  | eof
  deriving Repr, DecidableEq

namespace TokenKind

/-- The name of a kind in token listings. -/
def name : TokenKind → String
  | symbol s => s.name
  | identifier => "IDENTIFIER"
  | string _ => "STRING"
  | number _ => "NUMBER"
  | eof => "EOF"

end TokenKind

/-- A token: its kind, its text and the line on which the text ends. -/
structure Token where
  kind : TokenKind
  lexeme : String
  line : Nat
  deriving Repr, DecidableEq

/-- A name as it stands in the source: its text and its line. -/
structure Name where
  text : String
  line : Nat
  deriving Repr, DecidableEq

namespace Token

/-- Whether the token is this symbol. -/
def isSymbol (t : Token) (s : Symbol) : Bool :=
  t.kind = .symbol s

/-- The text and the line of a token. -/
def toName (t : Token) : Name :=
  ⟨t.lexeme, t.line⟩

/-- Where a message about the token points. -/
def location (t : Token) : String :=
  match t.kind with
  | .eof => " at end"
  | _ => " at '" ++ t.lexeme ++ "'"

end Token

/-- Where a message about a name points. -/
def Name.location (n : Name) : String :=
  " at '" ++ n.text ++ "'"

end ClassScript
