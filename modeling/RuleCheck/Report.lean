import RuleCheck.Text.Line
import RuleCheck.Text.Space
import RuleCheck.Scan.Run
import RuleCheck.Json.Printer

/-!
# Reports

A validation is the verdict on an expression, taken apart: whether the expression is accepted, and
the fault if it is not.  A report is the validation of a numbered expression, of which it keeps the
column and the message of the fault; so its parts agree (`Report.of_eq`).

A text of rules has one expression on each line; a line that is blank, or begins with `#` behind its
leading white space, is skipped but counted.  The expression is the line as it stands, white space
included.

A report is shown in one line of plain text or as a JSON object, which has a column and a message
only if the report has.
-/

namespace RuleCheck

structure Validation where
  success : Bool
  fault : Option Fault
deriving DecidableEq, Repr

namespace Validation

def ofVerdict : Verdict → Validation
  | .accepted   => ⟨true, none⟩
  | .rejected f => ⟨false, some f⟩

def column? (v : Validation) : Option Nat := v.fault.map Fault.column

def message? (v : Validation) : Option Text := v.fault.map Fault.message

end Validation

def validate (t : Text) : Validation := .ofVerdict (check t)

structure Report where
  /-- The number of the expression, from one on. -/
  line : Nat
  expression : Text
  valid : Bool
  column : Option Nat
  message : Option Text
deriving DecidableEq, Repr

/-- Whether a line of a text of rules holds no expression. -/
def isSkipped (line : Text) : Bool :=
  match line.dropWhile Text.isSpace with
  | []     => true
  | c :: _ => c = '#'

namespace Report

def of (line : Nat) (expression : Text) : Report :=
  let v := validate expression
  ⟨line, expression, v.success, v.column?, v.message?⟩

/-- The reports on expressions numbered in their order. -/
def ofExpressions (es : List Text) : List Report := (es.zipIdx 1).map fun (e, n) => of n e

/-- The reports on a text of rules. -/
def ofText (t : Text) : List Report :=
  ((t.lines.zipIdx 1).filter fun (l, _) => !isSkipped l).map fun (l, n) => of n l

/-- The report in one line. -/
def plain (r : Report) : Text :=
  match r.message with
  | none   => Text.decimal r.line ++ ": OK".toList
  | some m => Text.decimal r.line ++ (": ".toList ++ m)

def toJson (r : Report) : Json :=
  .ofMembers [
    ("line".toList, some (.number r.line)),
    ("expression".toList, some (.string r.expression)),
    ("valid".toList, some (.bool r.valid)),
    ("column".toList, r.column.map .number),
    ("message".toList, r.message.map .string)]

def listToJson (rs : List Report) : Json := .array (rs.map toJson)

/-- **The parts of a report agree.** -/
theorem of_eq (n : Nat) (e : Text) :
    of n e =
      match check e with
      | .accepted   => ⟨n, e, true, none, none⟩
      | .rejected f => ⟨n, e, false, some f.column, some f.message⟩ := by
  rw [of, validate]
  cases check e <;> rfl

end Report

end RuleCheck
