import ClassScript.Directory
import ClassScript.Session
import ClassScript.Syntax.Printer
import ClassScript.Token.Printer

/-!
# The command line

What each command prints and with which status it exits, as a function of the file that it names or
of the lines that it is given.
-/

set_option autoImplicit false

namespace ClassScript.CommandLine

/-- What can be done with a file. -/
inductive FileCommand where
  | tokenize (json : Bool)
  | parse
  | check
  | run
  deriving Repr, DecidableEq

/-- A command with its options. -/
inductive Command where
  | file (command : FileCommand) (name : String) (typeCheck : Bool)
  | repl (typeCheck : Bool)
  deriving Repr, DecidableEq

/-! ## Arguments -/

/-- Whether an argument is an option. -/
def isOption (argument : String) : Bool :=
  argument.startsWith "--"

/-- The command of these words, none of which is an option. -/
def commandOf? (json typeCheck : Bool) : List String → Option Command
  | ["tokenize", name] => some (.file (.tokenize json) name typeCheck)
  | ["parse", name] => if json then none else some (.file .parse name typeCheck)
  | ["check", name] => if json then none else some (.file .check name typeCheck)
  | ["run", name] => if json then none else some (.file .run name typeCheck)
  | ["repl"] => if json then none else some (.repl typeCheck)
  | _ => none

/-- The command that the arguments spell. Options may stand anywhere before two dashes that stand
alone; `--log` changes no answer. -/
def Command.ofArguments? (arguments : List String) : Option Command :=
  let before := arguments.takeWhile (· ≠ "--")
  let after := (arguments.dropWhile (· ≠ "--")).drop 1
  let options := before.filter isOption
  let words := (before.filter fun a => !isOption a) ++ after
  if options.all fun o => o == "--json" || o == "--unchecked" || o == "--log" then
    commandOf? (options.contains "--json") (!options.contains "--unchecked") words
  else none

/-- How the program is called. -/
def usage : String :=
  "Usage: [--unchecked] [--log] tokenize [--json] FILE | parse FILE | check FILE | run FILE | "
    ++ "repl\n"

/-! ## Answers -/

/-- What a command prints and its exit status. -/
structure Answer where
  exit : Nat
  stdout : String
  stderr : String
  deriving Repr, DecidableEq

/-- Texts with a newline after each. -/
def lines (texts : List String) : String :=
  String.join (texts.map (· ++ "\n"))

/-- The reports of failures, and the exit status of the first one. -/
def report (stdout : String) (failures : List Failure) : Answer :=
  let exit := match failures with
    | [] => 0
    | f :: _ => f.exitCode
  ⟨exit, stdout, lines (failures.map Failure.text)⟩

/-- The text of a file. -/
def sourceOf (contents : Except FileError (List UInt8)) : Except FileError String := do
  match Text.decode (← contents) with
  | .ok source => return source
  | .error e => .error (.encoding e)

/-- The tokens of a source, one a line; faults are reported and do not end the listing. -/
def tokenize (json : Bool) (source : String) : Answer :=
  let items := scan source
  let tokens := scannedTokens items
  report (lines (tokens.map (if json then Token.json else Token.listing)))
    ((scanFaults items).map .lexical)

/-- A program in prefix form. -/
def parse (source : String) : Answer :=
  match ClassScript.parse source with
  | .ok program => report (programText program ++ "\n") []
  | .error failures => report "" failures

/-- A session that prints to the answer. -/
def newSession (typeCheck : Bool) (clock : Clock) : Session :=
  .new typeCheck clock .unlimited

/-- The failures of a result. -/
def failuresOf : Except (List Failure) Unit → List Failure
  | .ok _ => []
  | .error failures => failures

/-- Checks a program without running it. -/
def check (typeCheck : Bool) (clock : Clock) (source : String) : Answer :=
  report "" (failuresOf ((newSession typeCheck clock).check source))

/-- Runs a source in a session: what it prints, its failures, and the session after it. -/
def step (fuel : Nat) (s : Session) (source : String) : String × List Failure × Session :=
  let (result, s) := s.run fuel source
  let (output, s) := s.takeOutput
  (Text.decodeLossy output.toList, failuresOf result, s)

/-- Runs a program. -/
def run (fuel : Nat) (typeCheck : Bool) (clock : Clock) (source : String) : Answer :=
  let (output, failures, _) := step fuel (newSession typeCheck clock) source
  report output failures

/-! ## Commands on files -/

/-- The extension of programs. -/
def programExtension : String := "kali"

/-- The exit status of a command for a file of the wrong kind. -/
def usageStatus : Nat := 64

/-- The exit status of a command whose file gives no text. -/
def fileStatus : Nat := 74

/-- The answer to a file of the wrong kind. -/
def wrongExtension (name : String) : Answer :=
  ⟨usageStatus, "", "Expected a ." ++ programExtension ++ " file, got " ++ Text.quoted name ++
    "\n"⟩

/-- Whether a command takes a file of this name. -/
def FileCommand.accepts (command : FileCommand) (name : String) : Bool :=
  command != .run || extension? name == some programExtension

/-- The answer of a command to the text of its file. -/
def FileCommand.answer (fuel : Nat) (clock : Clock) (typeCheck : Bool) (source : String) :
    FileCommand → Answer
  | tokenize json => CommandLine.tokenize json source
  | parse => CommandLine.parse source
  | check => CommandLine.check typeCheck clock source
  | run => CommandLine.run fuel typeCheck clock source

/-- The answer of a command to its file. -/
def fileAnswer (fuel : Nat) (clock : Clock) (command : FileCommand) (name : String)
    (typeCheck : Bool) (contents : Except FileError (List UInt8)) : Answer :=
  if command.accepts name then
    match sourceOf contents with
    | .ok source => command.answer fuel clock typeCheck source
    | .error e => ⟨fileStatus, "", e.message name ++ "\n"⟩
  else wrongExtension name

/-! ## The prompt -/

/-- The prompt before each line. -/
def prompt : String := "> "

/-- The lines of a text, each with its newline; the last one may lack it. -/
def splitLines : List Char → List (List Char)
  | [] => []
  | c :: rest =>
    if c = '\n' then [c] :: splitLines rest
    else
      match splitLines rest with
      | [] => [[c]]
      | line :: others => (c :: line) :: others

/-- What a session prints for lines typed at the prompt. A failed line does not end it. -/
def dialogue (fuel : Nat) (s : Session) : List String → String × String
  | [] => (prompt ++ "\n", "")
  | line :: rest =>
    let (output, failures, s) := step fuel s line
    let (stdout, stderr) := dialogue fuel s rest
    (prompt ++ output ++ stdout, lines (failures.map Failure.text) ++ stderr)

/-- The answer to all lines typed at the prompt. -/
def repl (fuel : Nat) (clock : Clock) (typeCheck : Bool) (input : String) : Answer :=
  let typed := (splitLines input.toList).map String.ofList
  let (stdout, stderr) := dialogue fuel (newSession typeCheck clock) typed
  ⟨0, stdout, stderr⟩

/-! ## Whole commands -/

/-- The answer to a command in a directory of files, with text to type at the prompt. -/
def answer (fuel : Nat) (clock : Clock) (files : String → Except FileError (List UInt8))
    (input : String) : Command → Answer
  | .file command name typeCheck => fileAnswer fuel clock command name typeCheck (files name)
  | .repl typeCheck => repl fuel clock typeCheck input

end ClassScript.CommandLine
