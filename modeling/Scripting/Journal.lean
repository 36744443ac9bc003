/-!
# The journal

What a session tells its user apart from the printed output: log messages of several levels, each
from one part of the system, and the reports of errors in the program, in the order in which they
came up.
-/

namespace Scripting

/-- How serious a log message is. -/
inductive LogLevel where
  | error | warn | info | debug | trace
deriving DecidableEq

namespace LogLevel

/-- The rank of a level; a log of some rank shows the levels up to it. -/
def rank : LogLevel → Nat
  | .error => 1
  | .warn => 2
  | .info => 3
  | .debug => 4
  | .trace => 5

/-- The name of a level. -/
def name : LogLevel → String
  | .error => "ERROR"
  | .warn => "WARN"
  | .info => "INFO"
  | .debug => "DEBUG"
  | .trace => "TRACE"

end LogLevel

/-- The part of the system that a log message comes from. -/
inductive LogTarget where
  | session | resolver | interpreter | native
deriving DecidableEq

/-- The name of a part of the system. -/
def LogTarget.name : LogTarget → String
  | .session => "mgr"
  | .resolver => "mgr::resolver"
  | .interpreter => "mgr::interpreter"
  | .native => "mgr::native"

/-- An entry of the journal. -/
inductive Entry where
  | log (level : LogLevel) (target : LogTarget) (message : String)
  | report (line : String)
deriving DecidableEq

/-- What was told so far, in order. -/
abbrev Journal := Array Entry

namespace Journal

/-- The reported lines of a journal from some place on. -/
def reportsSince (journal : Journal) (place : Nat) : List String :=
  (journal.toList.drop place).filterMap fun
    | .report line => some line
    | .log .. => none

/-- The log messages of a journal from some place on, up to a rank, each behind its level. -/
def messagesSince (journal : Journal) (place rank : Nat) : List String :=
  (journal.toList.drop place).filterMap fun
    | .report _ => none
    | .log level _ message =>
      if level.rank ≤ rank then some (level.name ++ " " ++ message) else none

end Journal

end Scripting
