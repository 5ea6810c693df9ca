import RuleCheck.Text.Basic

/-!
# Lexeme — numerals

The magnitude of a row of decimal digits, in a word of 64 bits.  One digit more makes it ten times
as large and adds the digit, and each of the two results is the largest word where it is too large
for one (`extendWord`).

**Clamping twice at every digit comes to clamping once** (`magnitude_eq_min`): what has reached the
largest word stays there, as the number denoted only grows.
-/

namespace RuleCheck.Numeral

/-- The word for a number, or the largest one where there is none. -/
def clamp (n : Nat) : UInt64 := if n < UInt64.size then .ofNat n else .ofNat (UInt64.size - 1)

/-- One digit more, at the right end: the product is clamped, and then the sum. -/
def extendWord (m : UInt64) (digit : Char) : UInt64 :=
  clamp ((clamp (m.toNat * 10)).toNat + (digit.toNat - '0'.toNat))

def magnitudeWord (digits : Text) : UInt64 := digits.foldl extendWord 0

def magnitude (digits : Text) : Nat := (magnitudeWord digits).toNat

/-! ### What the words hold -/

/-- The largest magnitude, `2 ^ 64 - 1`. -/
def largest : Nat := UInt64.size - 1

theorem toNat_clamp (n : Nat) : (clamp n).toNat = min n largest := by
  rw [clamp]
  split
  · rename_i h
    rw [UInt64.toNat_ofNat_of_lt' h]
    exact (Nat.min_eq_left (Nat.le_of_lt_succ h)).symm
  · rename_i h
    exact (Nat.min_eq_right (Nat.le_of_succ_le (Nat.le_of_not_lt h))).symm

/-- Two clamps come to one. -/
theorem toNat_extendWord (m : UInt64) (digit : Char) :
    (extendWord m digit).toNat = min (m.toNat * 10 + (digit.toNat - '0'.toNat)) largest := by
  rw [extendWord, toNat_clamp, toNat_clamp]
  omega

theorem toNat_foldl_extendWord (digits : Text) {m : UInt64} {n : Nat}
    (h : m.toNat = min n largest) :
    (digits.foldl extendWord m).toNat = min (Nat.ofDigitChars 10 digits n) largest := by
  induction digits generalizing m n with
  | nil => exact h
  | cons d ds ih =>
      -- a number that was clamped before the digit is clamped behind it
      have step : (extendWord m d).toNat = min (10 * n + (d.toNat - '0'.toNat)) largest := by
        rw [toNat_extendWord, h]
        omega
      rw [List.foldl_cons, Nat.ofDigitChars_cons, ih step]

/-- **The magnitude is the number that the digits denote**, up to the largest. -/
theorem magnitude_eq_min (digits : Text) :
    magnitude digits = min (Nat.ofDigitChars 10 digits 0) largest :=
  toNat_foldl_extendWord digits (Nat.zero_min largest).symm

end RuleCheck.Numeral
