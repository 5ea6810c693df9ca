import RuleCheck.Command.Basic

/-!
# The program

The command line: the arguments are those of the process, and the file is read from the system.
-/

namespace RuleCheck

/-- A refusal of the system, as it describes it. -/
def ReadFailure.ofError : IO.Error → ReadFailure
  | .alreadyExists _ n d | .resourceBusy n d | .resourceVanished n d | .unsupportedOperation n d
  | .hardwareFault n d | .unsatisfiedConstraints n d | .illegalOperation n d | .protocolError n d
  | .timeExpired n d | .interrupted _ n d | .noFileOrDirectory _ n d | .invalidArgument _ n d
  | .permissionDenied _ n d | .resourceExhausted _ n d | .inappropriateType _ n d
  | .noSuchThing _ n d | .otherError n d => .system n.toNat d.toList
  | e => .system 5 e.toString.toList

def readFile (path : Text) : IO (Except ReadFailure ByteArray) := do
  try
    let h ← IO.FS.Handle.mk (String.ofList path) .read
    return .ok (← h.readBinToEnd)
  catch e =>
    return .error (.ofError e)

end RuleCheck

open RuleCheck in
def main (args : List String) : IO UInt32 := do
  let args := args.map String.toList
  let contents ← (Command.path? args).mapM readFile
  let outcome := Command.run (fun _ => contents.getD (.error .notFound)) args
  (← IO.getStdout).putStr (String.ofList outcome.stdout)
  (← IO.getStderr).putStr (String.ofList outcome.stderr)
  return outcome.exit.toUInt32
