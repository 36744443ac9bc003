import Scripting.Session

/-!
# The command line

Running one script as a command. The arguments name the script and say whether to print its program
instead of running it and how much to log; the environment may say the latter too. What comes out is
an exit code and the text on the two output channels.
-/

namespace Scripting

namespace CommandLine

/-- What a run is asked to do. -/
structure Options where
  script : String
  dumpOnly : Bool
  verbosity : Int

/-- What a command line asks for. -/
inductive Request where
  | run (options : Options)
  | version
  | help
  /-- The arguments make no sense. -/
  | misuse

/-- What has been read of a command line. -/
structure Reading where
  script : Option String
  dumpOnly : Bool
  verbosity : Option Int

/-- The number that a list of decimal digits spells. -/
def number? (digits : List Char) : Option Nat :=
  if digits ≠ [] ∧ digits.all Char.isDigit then some (Decimal.digitsValue digits) else none

/-- A verbosity: a whole number of one byte, with or without a sign. -/
def verbosity? (text : String) : Option Int :=
  let value? : Option Int :=
    match text.toList with
    | '-' :: digits => (number? digits).map fun n => -(n : Int)
    | '+' :: digits => (number? digits).map fun n => (n : Int)
    | digits => (number? digits).map fun n => (n : Int)
  value?.filter fun value => -128 ≤ value ∧ value ≤ 127

/-- An argument is the value of an option before it, rather than an option itself. -/
def isValue (argument : String) : Bool :=
  match argument.toList with
  | '-' :: '-' :: _ => false
  | '-' :: c :: _ => c.isDigit
  | _ => true

/-- Take a verbosity, the first one. -/
def Reading.withVerbosity (reading : Reading) (text : String) : Option Reading :=
  match reading.verbosity, verbosity? text with
  | none, some value => some { reading with verbosity := some value }
  | _, _ => none

/-- Take the name of the script, the only one. -/
def Reading.withScript (reading : Reading) (path : String) : Option Reading :=
  if reading.script.isSome || path.isEmpty then none
  else some { reading with script := some path }

/-- What a complete reading asks for, given the verbosity that the environment asks for. -/
def Reading.finish (reading : Reading) (environment : Option String) : Request :=
  let verbosity :=
    match reading.verbosity, environment with
    | some value, _ => some value
    | none, some text => verbosity? text
    | none, none => some 0
  match reading.script, verbosity with
  | some script, some verbosity => .run ⟨script, reading.dumpOnly, verbosity⟩
  | _, _ => .misuse

/-- The next thing in a list of arguments. -/
inductive Piece where
  /-- From here on there are only names of scripts. -/
  | onlyScripts
  | script (path : String)
  | dumpOnly
  | verbosity (attached : Option String)
  | version
  | help
  | unknown

/-- What an argument is, by its first characters. -/
def Piece.ofArgument (argument : String) : Piece :=
  match argument.toList with
  | ['-', '-'] => .onlyScripts
  | '-' :: '-' :: long =>
    match String.ofList long with
    | "dump-ast" => .dumpOnly
    | "verbose" => .verbosity none
    | "version" => .version
    | "help" => .help
    | _ =>
      if "verbose=".toList.isPrefixOf long then
        .verbosity (some (String.ofList (long.drop "verbose=".length)))
      else .unknown
  | '-' :: 'v' :: '=' :: value => .verbosity (some (String.ofList value))
  | ['-', 'v'] => .verbosity none
  | '-' :: 'v' :: value => .verbosity (some (String.ofList value))
  | '-' :: 'V' :: _ => .version
  | '-' :: 'h' :: _ => .help
  | '-' :: _ :: _ => .unknown
  | _ => .script argument

/-- Read names of scripts. -/
def readScripts (environment : Option String) : List String → Reading → Request
  | [], reading => reading.finish environment
  | path :: rest, reading =>
    match reading.withScript path with
    | some reading => readScripts environment rest reading
    | none => .misuse

/-- Read the rest of a command line. A request for the version or for help ends the reading; so does
the first argument that makes no sense. -/
def readArguments (environment : Option String) : List String → Reading → Request
  | [], reading => reading.finish environment
  | argument :: rest, reading =>
    match Piece.ofArgument argument with
    | .onlyScripts => readScripts environment rest reading
    | .script path =>
      match reading.withScript path with
      | some reading => readArguments environment rest reading
      | none => .misuse
    | .dumpOnly =>
      if reading.dumpOnly then .misuse
      else readArguments environment rest { reading with dumpOnly := true }
    | .verbosity (some text) =>
      match reading.withVerbosity text with
      | some reading => readArguments environment rest reading
      | none => .misuse
    | .verbosity none =>
      match rest with
      | [] => .misuse
      | value :: rest =>
        if isValue value then
          match reading.withVerbosity value with
          | some reading => readArguments environment rest reading
          | none => .misuse
        else .misuse
    | .version => .version
    | .help => .help
    | .unknown => .misuse

/-- What a command line asks for, given the verbosity that the environment asks for. -/
def Request.ofArguments (environment : Option String) (arguments : List String) : Request :=
  readArguments environment arguments ⟨none, false, none⟩

/-- The rank of the log messages that a verbosity shows. -/
def logRank (verbosity : Int) : Nat :=
  if verbosity < 0 then 0
  else if verbosity ≤ 4 then verbosity.toNat + 1
  else LogLevel.warn.rank

/-- A text with blanks after it, up to a width. -/
def padded (width : Nat) (text : String) : String :=
  text ++ String.ofList (List.replicate (width - text.length) ' ')

/-- The lines of a journal up to a rank. Targets are padded to the longest one shown so far. -/
def journalLines (rank : Nat) : Nat → List Entry → List String
  | _, [] => []
  | width, .report line :: rest => line :: journalLines rank width rest
  | width, .log level target message :: rest =>
    if level.rank ≤ rank then
      let width := max width target.name.length
      (" " ++ padded 5 level.name ++ " " ++ padded width target.name ++ " > " ++ message)
        :: journalLines rank width rest
    else journalLines rank width rest

/-- What a command leaves behind. -/
structure Outcome where
  exitCode : Nat
  stdout : String
  stderr : String

/-- Lines of text, each with its end. -/
def joinLines (lines : List String) : String :=
  String.join (lines.map (·.push '\n'))

/-- The name and the version of the program. -/
def versionText : String :=
  "mgr 0.1.0"

/-- How the command is used. -/
def helpLines : List String :=
  ["Tree-walking interpreter for the Mgr language",
   "",
   "Usage: mgr [OPTIONS] <SCRIPT>",
   "",
   "Arguments:",
   "  <SCRIPT>  Script to run",
   "",
   "Options:",
   "      --dump-ast           Print the parsed program instead of running it",
   "  -v, --verbose <VERBOSE>  0 - 4, sets the log level from Error - Trace, negative numbers "
     ++ "disable all logging [env: MGR_VERBOSE=] [default: 0]",
   "  -h, --help               Print help",
   "  -V, --version            Print version"]

/-- What is said about arguments that make no sense. -/
def misuseLines : List String :=
  ["error: unexpected arguments", "", "Usage: mgr [OPTIONS] <SCRIPT>"]

/-- The exit code after a step: a script that cannot be read, errors before faults. -/
def exitCode (result : StepResult) (s : Session) : Nat :=
  match result with
  | .ok => if s.hadError then 65 else if s.hadRuntimeError then 70 else 0
  | _ => 1

/-- The line about a step that did not come to its end. -/
def failureLines : StepResult → List String
  | .ok => []
  | .outputFull => ["Error: output is full"]
  | .unreadable failure => ["Error: " ++ failure.message]
  | .exhausted => ["Error: too many steps"]

/-- Run a script as a command. -/
def execute (steps : Nat) (machine : Machine) (options : Options)
    (file : Except ReadFailure ByteArray) : Outcome :=
  let rank := logRank options.verbosity
  let s := Session.start machine
  let s :=
    if 4 < options.verbosity then
      s.log .warn
        ("Unsupported Level " ++ toString options.verbosity ++ ", defaulting to warn")
    else s
  let (result, after) := s.runFile steps options.dumpOnly options.script file
  { exitCode := exitCode result after
    stdout := after.machine.sink.textSince 0
    stderr := joinLines
      (journalLines rank 0 after.machine.journal.toList ++ failureLines result) }

/-- Do what a command line asks for. -/
def perform (steps : Nat) (machine : Machine) (read : String → Except ReadFailure ByteArray) :
    Request → Outcome
  | .run options => execute steps machine options (read options.script)
  | .version => ⟨0, joinLines [versionText], ""⟩
  | .help => ⟨0, joinLines helpLines, ""⟩
  | .misuse => ⟨2, "", joinLines misuseLines⟩

end CommandLine

/-- A directory that holds files and no other directories. -/
structure Directory where
  files : List (String × ByteArray)

/-- Read the file that a path leads to from a directory. -/
def Directory.read (directory : Directory) (path : String) : Except ReadFailure ByteArray :=
  let steps := (path.splitOn "/").filter fun step => step ≠ "" ∧ step ≠ "."
  let endsInside := path.endsWith "/" || path.endsWith "/."
  match steps with
  | [] => .error .isDirectory
  | name :: rest =>
    if path.startsWith "/" then .error .notFound
    else if steps.all (· = "..") then .error .isDirectory
    else
      match directory.files.lookup name with
      | none => .error .notFound
      | some bytes => if rest = [] && !endsInside then .ok bytes else .error .notDirectory

end Scripting
