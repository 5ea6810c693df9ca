import RuleCheck.Lexeme.Kind
import RuleCheck.Text.Cut

/-!
# Faults and verdicts

A fault is what is wrong with an expression, and the column where it is: that of the lexeme or of
the character that cannot come there, that of the backslash of a bad escape, or the length of the
expression when only its end shows the fault.  Its reason is what its message says behind the
column.  A verdict is the first fault that was reported, if any was (`Verdict.add`).
-/

namespace RuleCheck

inductive Cause where
  /-- A lexeme of the kind stands where none may. -/
  | unexpected (found : Kind)
  /-- No lexeme begins with the character. -/
  | unknown (found : Char)
  /-- The characters after a backslash in a string literal stand for nothing. -/
  | badEscape (sequence : Text)
  | unbalanced
  | incomplete
deriving DecidableEq, Repr

def Cause.reason : Cause → Text
  | unexpected found   => "unexpected ".toList ++ found.label
  | unknown _          => "unknown character".toList
  | badEscape sequence => "Illegal escape sequence: '\\".toList ++ sequence ++ ['\'']
  | unbalanced         => "unmatched \"()\"".toList
  | incomplete         => "unexpected end of expression".toList

structure Fault where
  column : Nat
  cause : Cause
deriving DecidableEq, Repr

namespace Fault

def message (f : Fault) : Text :=
  "parse error at [column ".toList ++ Text.decimal f.column ++ "]: ".toList ++ f.cause.reason

/-- What the message says behind its first `]: `. -/
def reason (f : Fault) : Text :=
  match Text.cut? "]: ".toList f.message with
  | some (_, behind) => behind
  | none             => f.message

end Fault

inductive Verdict where
  | accepted
  | rejected (fault : Fault)
deriving DecidableEq, Repr

namespace Verdict

def isAccepted : Verdict → Bool
  | accepted   => true
  | rejected _ => false

/-- The verdict when one more fault is reported: the first one stays. -/
def add : Verdict → Fault → Verdict
  | accepted, f   => rejected f
  | rejected f, _ => rejected f

@[simp] theorem isAccepted_add (v : Verdict) (f : Fault) : (v.add f).isAccepted = false := by
  cases v <;> rfl

theorem isAccepted_iff {v : Verdict} : v.isAccepted ↔ v = accepted := by
  cases v <;> simp [isAccepted]

end Verdict

end RuleCheck
