import RuleCheck.Fault
import RuleCheck.Text.Cut

/-!
# Faults — reading messages

A message is cut at its first `]: `: before it stands the column, behind it the reason.
-/

namespace RuleCheck.Fault

/-- The column and the reason that a message gives. -/
def ofMessage? (message : Text) : Option (Nat × Text) := do
  let (front, reason) ← Text.cut? "]: ".toList message
  let digits := front.drop "parse error at [column ".toList.length
  if digits ≠ [] ∧ digits.all Char.isDigit then
    return (Nat.ofDigitChars 10 digits 0, reason)
  else none

end RuleCheck.Fault
