/-!
# Text

A text is a list of characters, so that a column is a position in the list and every count is a
count of characters.  Numbers are written in decimal digits.
-/

namespace RuleCheck

abbrev Text := List Char

namespace Text

/-- A number in decimal digits, without leading zeros. -/
def decimal (n : Nat) : Text := Nat.toDigits 10 n

theorem isDigit_of_mem_decimal {n : Nat} {c : Char} (h : c ∈ decimal n) : c.isDigit :=
  Nat.isDigit_of_mem_toDigits (by decide) (by decide) h

end Text

end RuleCheck
