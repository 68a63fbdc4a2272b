import ClassScript.CommandLine
import Std.Time

/-!
# The program

Reads the file that a command names, or lines at the prompt, and prints the answer.
-/

set_option autoImplicit false

namespace ClassScript.CommandLine

/-- The depth to which programs may recurse. -/
def maxFuel : Nat := tenPow 15

/-- The time in seconds. -/
def readClock : IO Clock := do
  let now ← Std.Time.Timestamp.now
  let nanoseconds := now.toNanosecondsSinceUnixEpoch.val
  return .ok (Float.ofInt nanoseconds / 1000000000)

/-- Why a file could not be opened. -/
def openError : IO.Error → FileError
  | .noFileOrDirectory .. => .missing
  | .inappropriateType _ 20 _ => .notDirectory
  | .invalidArgument _ 36 _ => .nameTooLong
  | e => .unopened (toString e)

/-- Why an open file could not be read. -/
def readError : IO.Error → FileError
  | .inappropriateType _ 21 _ => .directory
  | e => .unread (toString e)

/-- The bytes of a file. -/
def readFile (name : String) : IO (Except FileError (List UInt8)) := do
  match ← (IO.FS.Handle.mk name .read).toBaseIO with
  | .error e => return .error (openError e)
  | .ok handle =>
    match ← handle.readBinToEnd.toBaseIO with
    | .error e => return .error (readError e)
    | .ok bytes => return .ok bytes.toList

/-- Prints an answer. -/
def deliver (a : Answer) : IO UInt32 := do
  (← IO.getStdout).putStr a.stdout
  (← IO.getStderr).putStr a.stderr
  return a.exit.toUInt32

/-- Runs the lines typed at the prompt until the input ends. -/
partial def converse (s : Session) : IO UInt32 := do
  let stdout ← IO.getStdout
  stdout.putStr prompt
  stdout.flush
  let line ← (← IO.getStdin).getLine
  if line.isEmpty then
    stdout.putStr "\n"
    return 0
  let clock ← readClock
  let (output, failures, s) := step maxFuel { s with machine := s.machine.setClock clock } line
  stdout.putStr output
  stdout.flush
  (← IO.getStderr).putStr (lines (failures.map Failure.text))
  converse s

end ClassScript.CommandLine

open ClassScript.CommandLine in
/-- Runs the command that the arguments spell. -/
def main (arguments : List String) : IO UInt32 := do
  let clock ← readClock
  match Command.ofArguments? arguments with
  | some (.file command name typeCheck) =>
    deliver (fileAnswer maxFuel clock command name typeCheck (← readFile name))
  | some (.repl typeCheck) => converse (newSession typeCheck clock)
  | none => deliver ⟨2, "", usage⟩
