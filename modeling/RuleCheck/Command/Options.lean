import RuleCheck.Text.Basic

/-!
# Command — options and inputs

The arguments behind the command's name are options, which begin with two dashes and may stand
anywhere, and inputs.  The argument `--` ends the options: what follows it is all input.
-/

namespace RuleCheck.Command

inductive UsageError where
  | fewArguments
  | unknownOption (argument : Text)
  | noInput
  | prettyWithoutJson
  | unknownCommand (name : Text)
  | notOnePath
deriving DecidableEq, Repr

def UsageError.message : UsageError → Text
  | fewArguments      => "not enough arguments".toList
  | unknownOption a   => "unknown option '".toList ++ a ++ ['\'']
  | noInput           => "no input given".toList
  | prettyWithoutJson => "--pretty requires --json".toList
  | unknownCommand c  => "unknown command '".toList ++ c ++ ['\'']
  | notOnePath        => "file requires exactly one input path".toList

structure Options where
  json : Bool
  pretty : Bool
  /-- Whether only rejected expressions are shown. -/
  quiet : Bool
deriving DecidableEq, Repr

structure Arguments where
  options : Options
  inputs : List Text
deriving DecidableEq, Repr

namespace Arguments

def ofInputs (inputs : List Text) : Arguments := ⟨⟨false, false, false⟩, inputs⟩

def withJson (a : Arguments) : Arguments := { a with options.json := true }

def withPretty (a : Arguments) : Arguments := { a with options.pretty := true }

def withQuiet (a : Arguments) : Arguments := { a with options.quiet := true }

def withInput (input : Text) (a : Arguments) : Arguments := { a with inputs := input :: a.inputs }

/-- Options and inputs told apart, up to the first argument that is neither. -/
def sort : List Text → Except UsageError Arguments
  | []      => .ok (ofInputs [])
  | a :: as =>
      if a = "--".toList then .ok (ofInputs as)
      else if a = "--json".toList then (sort as).map withJson
      else if a = "--pretty".toList then (sort as).map withPretty
      else if a = "--quiet".toList then (sort as).map withQuiet
      else if "--".toList.isPrefixOf a then .error (.unknownOption a)
      else (sort as).map (withInput a)

/-- Arguments are of use only with an input, and `--pretty` only with `--json`. -/
def validate (a : Arguments) : Except UsageError Arguments :=
  if a.inputs = [] then .error .noInput
  else if a.options.pretty ∧ ¬ a.options.json then .error .prettyWithoutJson
  else .ok a

def ofList (as : List Text) : Except UsageError Arguments := sort as >>= validate

end Arguments

end RuleCheck.Command
