import RuleCheck.Command.Options
import RuleCheck.Failure
import RuleCheck.Report

/-!
# Command — running

`check` reports on its inputs, `file` on the text of rules in the file that its input names.  The
exit code is zero only if every expression reported on is valid, shown or not.  An error of any kind
leaves the standard output empty and puts a line about it, then the usage, on the standard error.
-/

namespace RuleCheck.Command

inductive Request where
  | check (expressions : List Text)
  | file (path : Text)
deriving DecidableEq, Repr

/-- The request that a command makes with its inputs. -/
def Request.of (command : Text) (inputs : List Text) : Except UsageError Request :=
  if command = "check".toList then .ok (.check inputs)
  else if command = "file".toList then
    match inputs with
    | [path] => .ok (.file path)
    | _      => .error .notOnePath
  else .error (.unknownCommand command)

/-- The request that the arguments make, and the options for its answer.  Errors in the options come
before errors in the command. -/
def parse : List Text → Except UsageError (Request × Options)
  | command :: a :: as => do
      let arguments ← Arguments.ofList (a :: as)
      let request ← Request.of command arguments.inputs
      return (request, arguments.options)
  | _ => .error .fewArguments

/-- What a run leaves behind. -/
structure Outcome where
  exit : Nat
  stdout : Text
  stderr : Text
deriving DecidableEq, Repr

/-- The text with the end of a line behind it. -/
def line (t : Text) : Text := t ++ ['\n']

def usage : Text :=
  [ "usage:",
    "  expr-validator check <expression>... [--json [--pretty]] [--quiet]",
    "  expr-validator file <path> [--json [--pretty]] [--quiet]",
    "",
    "file input holds one expression per line; blank lines and lines",
    "starting with '#' are skipped.",
    "",
    "use '--' before expressions that begin with '--'." ].flatMap fun l => line l.toList

/-- The reports that are shown. -/
def shown (o : Options) (rs : List Report) : List Report := rs.filter fun r => !(o.quiet && r.valid)

def render (o : Options) (rs : List Report) : Text :=
  if o.json then
    let value := Report.listToJson (shown o rs)
    line (if o.pretty then value.pretty else value.compact)
  else (shown o rs).flatMap fun r => line r.plain

namespace Outcome

def ofError (message : Text) : Outcome := ⟨1, [], line message ++ usage⟩

def ofReports (o : Options) (rs : List Report) : Outcome :=
  ⟨if rs.all Report.valid then 0 else 1, render o rs, []⟩

end Outcome

/-- The reports on a text of rules in UTF-8. -/
def reportsOfBytes (bytes : ByteArray) : Except ReadFailure (List Report) :=
  (decodeText bytes).map Report.ofText

/-- What a run with the arguments leaves behind, where `read` gives the contents of files. -/
def run (read : Text → Except ReadFailure ByteArray) (args : List Text) : Outcome :=
  match parse args with
  | .error e => .ofError e.message
  | .ok (.check inputs, o) => .ofReports o (Report.ofExpressions inputs)
  | .ok (.file path, o) =>
      match read path >>= reportsOfBytes with
      | .ok rs   => .ofReports o rs
      | .error e => .ofError (path ++ ": ".toList ++ e.message)

/-- The path of the file that a run with the arguments reads, if it reads one. -/
def path? (args : List Text) : Option Text :=
  match parse args with
  | .ok (.file path, _) => some path
  | _                   => none

end RuleCheck.Command
