import Scripting.Eval
import Scripting.Program.Parser
import Scripting.Program.Printer
import Scripting.Token.Scan

/-!
# Sessions

A session runs scripts one after the other on one machine, so that a later script sees what the
earlier ones have left. A script passes through scanning, reading and resolving before it runs;
errors found on the way are reported and keep it from running. The session remembers whether there
was ever an error, and whether a script ever ended in a fault.
-/

namespace Scripting

/-- Why a file could not be read as a script. -/
inductive ReadFailure where
  | notFound
  | denied
  | notDirectory
  | isDirectory
  | notText
deriving DecidableEq

/-- The wording of a read failure. -/
def ReadFailure.message : ReadFailure → String
  | .notFound => "No such file or directory (os error 2)"
  | .denied => "Permission denied (os error 13)"
  | .notDirectory => "Not a directory (os error 20)"
  | .isDirectory => "Is a directory (os error 21)"
  | .notText => "stream did not contain valid UTF-8"

/-- How a step of a session ends. Reported errors of the script do not show here. -/
inductive StepResult where
  | ok
  /-- The printed program did not fit into the output. -/
  | outputFull
  /-- The script could not be read. -/
  | unreadable (failure : ReadFailure)
  /-- The script needs more steps than it was given. -/
  | exhausted
deriving DecidableEq

/-- A session. -/
structure Session where
  machine : Machine
  /-- The first identity that no node has yet. -/
  nextId : NodeId
  hadError : Bool
  hadRuntimeError : Bool

namespace Session

/-- The steps that a script is given: more than a script can take before its user gives up. -/
def stepLimit : Nat :=
  1000000000000000000

/-- A session on a machine on which nothing has run. -/
def start (machine : Machine) : Session :=
  ⟨machine, 0, false, false⟩

/-- Change the machine of a session. -/
def mapMachine (s : Session) (change : Machine → Machine) : Session :=
  { s with machine := change s.machine }

/-- Add a log message. -/
def log (s : Session) (level : LogLevel) (message : String) : Session :=
  s.mapMachine (·.log level .session message)

/-- Report errors that keep a script from running. -/
def rejectWith (s : Session) (lines : List String) : Session :=
  { s.mapMachine (lines.foldl Machine.report) with hadError := true }

/-- Print a program instead of running it. -/
def dump (s : Session) : List String → StepResult × Session
  | [] => (.ok, s)
  | line :: rest =>
    let (taken, sink) := s.machine.sink.writeLine line
    let s := s.mapMachine ({ · with sink })
    if taken then s.dump rest else (.outputFull, s)

/-- Resolve and run a program. -/
def runProgram (s : Session) (steps : Nat) (program : Program) : StepResult × Session :=
  let r := program.resolve
  let s := s.mapMachine (·.recordResolution r)
  if r.errors.isEmpty then
    match Eval.runProgram steps program s.machine with
    | .ok _ machine => (.ok, { s with machine })
    | .error (.fault fault) machine =>
      (.ok, { s with machine := machine.report fault.report, hadRuntimeError := true })
    | .error .exhausted machine => (.exhausted, { s with machine })
  else (.ok, s.rejectWith (r.errors.toList.map StaticError.report))

/-- Run a script, or print its program. -/
def run (s : Session) (steps : Nat) (dumpOnly : Bool) (source : String) : StepResult × Session :=
  match scan source with
  | .error errors => (.ok, s.rejectWith (errors.map ScanError.report))
  | .ok tokens =>
    let s := s.log .debug ("scanned " ++ toString tokens.length ++ " tokens")
    match Program.parse s.nextId tokens with
    | (.error errors, nextId) =>
      (.ok, { s.rejectWith (errors.map SyntaxError.report) with nextId })
    | (.ok program, nextId) =>
      let s := { s with nextId }.log .debug
        ("parsed " ++ toString program.length ++ " statements")
      if dumpOnly then s.dump (renderStmts program) else s.runProgram steps program

/-- The script in a file. -/
def scriptOf (file : Except ReadFailure ByteArray) : Except ReadFailure String :=
  file.bind fun bytes =>
    match String.fromUTF8? bytes with
    | some text => .ok text
    | none => .error .notText

/-- Run the script in a file. -/
def runFile (s : Session) (steps : Nat) (dumpOnly : Bool) (path : String)
    (file : Except ReadFailure ByteArray) : StepResult × Session :=
  let s := s.log .info ("running " ++ path)
  match scriptOf file with
  | .ok source => s.run steps dumpOnly source
  | .error failure => (.unreadable failure, s)

end Session

/-- What a step of a session shows. -/
structure StepReport where
  result : StepResult
  /-- What the step printed. -/
  output : String
  /-- The errors it reported. -/
  reports : List String
  /-- Its log messages up to a rank, each behind its level. -/
  messages : List String
  hadError : Bool
  hadRuntimeError : Bool

/-- Do a step of a session and show what it did, with log messages up to a rank. -/
def Session.observe (s : Session) (logRank : Nat) (step : Session → StepResult × Session) :
    StepReport × Session :=
  let taken := s.machine.sink.taken.size
  let told := s.machine.journal.size
  let (result, after) := step s
  ({ result
     output := after.machine.sink.textSince taken
     reports := after.machine.journal.reportsSince told
     messages := after.machine.journal.messagesSince told logRank
     hadError := after.hadError
     hadRuntimeError := after.hadRuntimeError }, after)

end Scripting
