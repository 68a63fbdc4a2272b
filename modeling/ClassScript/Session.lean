import ClassScript.Diagnostic
import ClassScript.Machine.Eval
import ClassScript.Scope.Resolver
import ClassScript.Syntax.Descent
import ClassScript.Syntax.Numbering
import ClassScript.Typing.Walker

/-!
# Sessions

A session reads, resolves, checks and runs one source after the other; the global names and their
types last from one to the next. A source that does not run, because it fails before or is only
checked, leaves behind what is known of its uses of names and the classes that were entered for it. A
source that fails while it runs leaves that, what it has printed and what it has done to objects. The
global names and their types are as before after both.
-/

set_option autoImplicit false

namespace ClassScript

/-- The program that a source spells, or its lexical errors followed by its syntax errors. -/
def parse (source : String) : Except (List Failure) (List (Stmt Unit)) :=
  let items := scan source
  let faults := (scanFaults items).map .lexical
  match parseTokens (scannedTokens items), faults with
  | .ok program, [] => .ok program
  | .ok _, faults => .error faults
  | .error errors, faults => .error (faults ++ errors.map .grammar)

/-- A program whose uses of names are numbered, the number after the last one, and what is known
about these uses. -/
structure Loaded where
  program : List (Stmt NodeId)
  next : NodeId
  report : Report

/-- Numbers the uses of names of a program from `first` on and resolves them. -/
def Loaded.ofProgram (first : NodeId) (program : List (Stmt Unit)) : Loaded :=
  let (numbered, next) := (Stmt.numberAll program).run first
  ⟨numbered, next, resolve numbered⟩

/-- A machine that knows at which distances the names of a program are bound. -/
def Machine.load (m : Machine) (l : Loaded) : Machine :=
  (m.reserve l.next).note l.report.notes

/-- A session: whether it checks types, the types of the global names, and the state of the run. -/
structure Session where
  typeCheck : Bool
  checker : Checker
  machine : Machine

namespace Session

/-- A session before its first source. -/
def new (typeCheck : Bool) (clock : Clock) (sink : Sink) : Session :=
  ⟨typeCheck, .new, .new clock sink⟩

/-- Reads and resolves a source. -/
def load (s : Session) (source : String) : Except (List Failure) Loaded := do
  let program ← parse source
  let loaded := Loaded.ofProgram s.machine.nextUse program
  match loaded.report.errors with
  | [] => return loaded
  | errors => .error (errors.map .scope)

/-- What is loaded of a source that spells a program. -/
theorem load_eq {s : Session} {source : String} {program : List (Stmt Unit)}
    (h : parse source = .ok program) :
    s.load source =
      match (Loaded.ofProgram s.machine.nextUse program).report.errors with
      | [] => .ok (Loaded.ofProgram s.machine.nextUse program)
      | errors => .error (errors.map .scope) := by
  rw [load, h]
  rfl

/-- A source is loaded if it spells a program in which all names are in order. -/
theorem load_ok_iff {s : Session} {source : String} {l : Loaded} :
    s.load source = .ok l ↔ ∃ program, parse source = .ok program ∧
      l = .ofProgram s.machine.nextUse program ∧ l.report.errors = [] := by
  cases hp : parse source with
  | error failures =>
    rw [load, hp]
    constructor
    · intro h
      cases h
    · rintro ⟨_, h, -⟩
      cases h
  | ok program =>
    rw [load_eq hp]
    constructor
    · intro h
      split at h
      next herrors =>
        cases h
        exact ⟨program, rfl, rfl, herrors⟩
      next => cases h
    · rintro ⟨_, h, rfl, herrors⟩
      cases h
      rw [herrors]

/-- Checks the types of a program, if the session or the caller wants it. -/
def checkTypes (s : Session) (wanted : Bool) (program : List (Stmt NodeId)) :
    Except (List Failure) Checker :=
  if wanted then
    match s.checker.check program with
    | (.ok _, checker) => .ok checker
    | (.error e, _) => .error [.typing e]
  else .ok s.checker

/-- All that happens to a source before it runs. -/
def prepare (s : Session) (typeCheck : Bool) (source : String) :
    Except (List Failure) (Loaded × Checker) := do
  let loaded ← s.load source
  let checker ← s.checkTypes typeCheck loaded.program
  return (loaded, checker)

/-- What a source leaves behind that has been looked at but does not run: the distances of its uses of
names and the classes entered for it. The global names and their types are those of before. -/
def inspect (s : Session) (typeCheck : Bool) (source : String) : Session :=
  match parse source with
  | .error _ => s
  | .ok program =>
    let loaded := Loaded.ofProgram s.machine.nextUse program
    let machine := s.machine.load loaded
    if typeCheck && loaded.report.errors.isEmpty then
      let checker := (s.checker.check loaded.program).2.restore s.checker.globals
      { s with checker, machine }
    else { s with machine }

/-- Runs a source under a watch. -/
def runWith (watch : Watch) (fuel : Nat) (s : Session) (source : String) :
    Except (List Failure) Unit × Session :=
  match s.prepare s.typeCheck source with
  | .error failures => (.error failures, s.inspect s.typeCheck source)
  | .ok (loaded, checker) =>
    match (s.machine.load loaded).interpretWith watch fuel loaded.program with
    | (.ok _, machine) => (.ok (), { s with checker, machine })
    | (.error e, machine) =>
      (.error [.stop e],
        { s with
          checker := checker.restore s.checker.globals
          machine := machine.restoreGlobals s.machine.globals })

/-- Runs a source. -/
def run (fuel : Nat) (s : Session) (source : String) : Except (List Failure) Unit × Session :=
  s.runWith .none fuel source

/-- Checks a source, types included, without running it; `s.inspect true source` is the session
after it. -/
def check (s : Session) (source : String) : Except (List Failure) Unit :=
  (s.prepare true source).map fun _ => ()

/-- The bytes printed since the output was last taken, and the session without them. -/
def takeOutput (s : Session) : ByteArray × Session :=
  let (output, machine) := s.machine.takeOutput
  (output, { s with machine })

end Session

end ClassScript
