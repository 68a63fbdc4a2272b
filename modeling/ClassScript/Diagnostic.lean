import ClassScript.Machine.Error
import ClassScript.Scope.Resolution
import ClassScript.Syntax.Error
import ClassScript.Text.Utf8
import ClassScript.Token.Scanner
import ClassScript.Typing.Error

/-!
# Failures and how they are reported

Every stage has its own errors; a failure is any one of them. It is reported as one text with its
line, and the stage decides the exit status.
-/

set_option autoImplicit false

namespace ClassScript

/-- An error of any stage. -/
inductive Failure where
  | lexical (e : LexError)
  | grammar (e : SyntaxError)
  | scope (e : ScopeError)
  | typing (e : TypeError)
  | stop (e : Stop)
  | encoding (e : Text.Utf8Error)
  deriving Repr, DecidableEq

/-- The stages that fail. -/
inductive Phase where
  | reading
  | scoping
  | typing
  | running
  | output
  deriving Repr, DecidableEq

/-- The exit status of a program that fails in a phase. -/
def Phase.exitCode : Phase → Nat
  | reading => 65
  | scoping => 65
  | typing => 66
  | running => 70
  | output => 74

namespace Failure

/-- The stage of a failure. -/
def phase : Failure → Phase
  | lexical _ => .reading
  | grammar _ => .reading
  | scope _ => .scoping
  | typing _ => .typing
  | stop (.fault _) => .running
  | stop (.output _) => .output
  | stop .outOfFuel => .running
  | encoding _ => .output

/-- The exit status of a program that fails. -/
def exitCode (f : Failure) : Nat :=
  f.phase.exitCode

/-- The failure in words. -/
def message : Failure → String
  | lexical e => e.cause.message
  | grammar e => e.cause.message
  | scope e => e.cause.message
  | typing e => e.cause.message
  | stop (.fault e) => e.cause.message
  | stop (.output e) => e.message
  | stop .outOfFuel => "Out of fuel."
  | encoding e => e.message

/-- The line to which a failure points. -/
def line? : Failure → Option Nat
  | lexical e => some e.line
  | grammar e => some e.token.line
  | scope e => some e.name.line
  | typing e => some e.line
  | stop (.fault e) => some e.line
  | stop (.output _) => none
  | stop .outOfFuel => none
  | encoding _ => none

/-- The place in the line to which a failure points. -/
def location? : Failure → Option String
  | grammar e => some e.token.location
  | scope e => some e.name.location
  | _ => none

/-- The report before a line: `[line 3] Error at 'x': message`. -/
def headed (line : Nat) (location message : String) : String :=
  "[line " ++ toString line ++ "] Error" ++ location ++ ": " ++ message

/-- The report after a message: the line on a line of its own. -/
def footed (message : String) (line : Nat) : String :=
  message ++ "\n[line " ++ toString line ++ "]"

/-- The report of a failure. -/
def text (f : Failure) : String :=
  match f with
  | lexical e => headed e.line "" f.message
  | grammar e => headed e.token.line e.token.location f.message
  | scope e => headed e.name.line e.name.location f.message
  | typing e => footed f.message e.line
  | stop (.fault e) => footed f.message e.line
  | _ => f.message

end Failure

end ClassScript
