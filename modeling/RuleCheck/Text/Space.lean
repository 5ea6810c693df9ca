import RuleCheck.Text.Basic

/-!
# Text — white space

The characters with the Unicode property `White_Space`.  They contain the four characters of
`Char.isWhitespace` (`isSpace_of_isWhitespace`).
-/

namespace RuleCheck.Text

/-- The code points with the property `White_Space`, as ranges with both ends included. -/
def spaceRanges : List (Nat × Nat) :=
  [(0x0009, 0x000D), (0x0020, 0x0020), (0x0085, 0x0085), (0x00A0, 0x00A0), (0x1680, 0x1680),
   (0x2000, 0x200A), (0x2028, 0x2029), (0x202F, 0x202F), (0x205F, 0x205F), (0x3000, 0x3000)]

def isSpace (c : Char) : Bool := spaceRanges.any fun (low, high) => low ≤ c.toNat && c.toNat ≤ high

theorem isSpace_of_isWhitespace {c : Char} (h : c.isWhitespace) : isSpace c := by
  simp only [Char.isWhitespace, Bool.or_eq_true, decide_eq_true_eq, or_assoc] at h
  rcases h with rfl | rfl | rfl | rfl <;> decide

end RuleCheck.Text
