import RuleCheck.Text.Basic

/-!
# Text — escapes

What can stand behind a backslash in a string: a letter or sign with a meaning of its own
(`letter?`), or four hexadecimal digits, of either case, which name a character by its code point
(`codePoint?`).  A surrogate is no character.
-/

namespace RuleCheck.Text

/-- The character that a backslash and a letter or sign stand for, whatever the quotes. -/
def letter? : Char → Option Char
  | '\\' => some '\\'
  | '/'  => some '/'
  | 'b'  => some '\x08'
  | 'f'  => some '\x0c'
  | 'n'  => some '\n'
  | 'r'  => some '\r'
  | 't'  => some '\t'
  | _    => none

def hexValue? (c : Char) : Option Nat :=
  if c.isDigit then some (c.toNat - '0'.toNat)
  else if 'a' ≤ c ∧ c ≤ 'f' then some (c.toNat - 'a'.toNat + 10)
  else if 'A' ≤ c ∧ c ≤ 'F' then some (c.toNat - 'A'.toNat + 10)
  else none

/-- The character with the code point `n`, if there is one. -/
def scalar? (n : Nat) : Option Char := if n.isValidChar then some (Char.ofNat n) else none

/-- The character whose code point has the four digits. -/
def codePoint? (a b c d : Char) : Option Char := do
  let a ← hexValue? a
  let b ← hexValue? b
  let c ← hexValue? c
  let d ← hexValue? d
  scalar? (((a * 16 + b) * 16 + c) * 16 + d)

theorem hexValue?_lt {c : Char} {n : Nat} (h : hexValue? c = some n) : n < 16 := by
  have hd : c.isDigit → c.toNat ≤ '9'.toNat := by
    intro hd
    simp only [Char.isDigit, Bool.and_eq_true, decide_eq_true_eq] at hd
    exact hd.2
  have hc : ∀ d, c ≤ d → c.toNat ≤ d.toNat := fun d h => h
  simp only [hexValue?] at h
  split at h
  · rename_i h'
    have := hd h'
    cases h
    simp only [Char.reduceToNat] at this ⊢
    omega
  · split at h
    · rename_i h'
      have := hc _ h'.2
      cases h
      simp only [Char.reduceToNat] at this ⊢
      omega
    · split at h <;> cases h
      rename_i h'
      have := hc _ h'.2
      simp only [Char.reduceToNat] at this ⊢
      omega

end RuleCheck.Text
