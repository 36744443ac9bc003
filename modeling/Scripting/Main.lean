import Scripting.CommandLine

/-!
# The program

The command itself: it fetches the arguments, the environment, the script, the input and the time,
and writes what the run leaves behind.
-/

namespace Scripting.CommandLine

/-- Why the system could not read a file. -/
def readFailureOf : IO.Error → ReadFailure
  | .inappropriateType _ code _ => if code = 21 then .isDirectory else .notDirectory
  | .permissionDenied .. => .denied
  | _ => .notFound

/-- The bytes of a file. -/
def readScriptFile (path : String) : IO (Except ReadFailure ByteArray) := do
  try
    return .ok (← IO.FS.readBinFile path)
  catch e =>
    return .error (readFailureOf e)

end Scripting.CommandLine

open Scripting CommandLine in
/-- Run the command line. The input is read to its end in advance; on a terminal it is taken to be
empty, so that `input()` gives `nil` at once there and does not wait for a line. -/
def main (arguments : List String) : IO UInt32 := do
  let environment ← IO.getEnv "MGR_VERBOSE"
  let request := Request.ofArguments environment arguments
  let file ←
    match request with
    | .run options => readScriptFile options.script
    | _ => pure (.error .notFound)
  let stdin ← IO.getStdin
  let input ← if ← stdin.isTty then pure ByteArray.empty else stdin.readBinToEnd
  let now ← IO.monoMsNow
  let machine := Machine.start (.ofLimit none) input.toList .loopback now
  let outcome := perform Session.stepLimit machine (fun _ => file) request
  (← IO.getStdout).putStr outcome.stdout
  (← IO.getStderr).putStr outcome.stderr
  return outcome.exitCode.toUInt32
