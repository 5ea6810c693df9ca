import Mathlib.Data.List.Forall2
import RuleCheck.Text.Escape

/-!
# Proofs — Text — characters by their digits

Four hexadecimal digits name a character exactly if the number that they make is its code point
(`codePoint?_eq_some_iff`).  A digit counts in either case (`hexValue?_eq_some_iff`), and a number
that is no character's code point, such as a surrogate's, names none (`scalar?_eq_some_iff`).
-/

namespace RuleCheck.Text

/-- A hexadecimal digit, of either case, and its value. -/
def IsHexDigit (c : Char) (n : Nat) : Prop := n < 16 ∧ (c = n.digitChar ∨ c = n.digitChar.toUpper)

/-- Four hexadecimal digits that make the code point of the character. -/
def IsCodePoint (digits : Text) (x : Char) : Prop :=
  digits.length = 4 ∧
    ∃ values, List.Forall₂ IsHexDigit digits values ∧ x.toNat = values.foldl (· * 16 + ·) 0

theorem isHexDigit_digitChar {n : Nat} (h : n < 16) : IsHexDigit n.digitChar n := ⟨h, .inl rfl⟩

/-- A character in a row of neighbouring code points is told by how far on in the row it is. -/
theorem eq_of_row {c first last : Char} {f : Nat → Char} (hf : first ≤ c) (hl : c ≤ last)
    (h : ∀ m ≤ last.toNat - first.toNat, (f m).toNat = m + first.toNat) :
    c = f (c.toNat - first.toNat) := by
  have hf : first.toNat ≤ c.toNat := hf
  have hl : c.toNat ≤ last.toNat := hl
  refine Char.toNat_inj.mp ?_
  rw [h _ (Nat.sub_le_sub_right hl _), Nat.sub_add_cancel hf]

theorem isHexDigit_of_hexValue? {c : Char} {n : Nat} (h : hexValue? c = some n) :
    IsHexDigit c n := by
  refine ⟨hexValue?_lt h, ?_⟩
  simp only [hexValue?, Char.isDigit, Bool.and_eq_true, decide_eq_true_eq] at h
  split at h
  · rename_i hc
    cases h
    exact .inl (eq_of_row (f := Nat.digitChar) hc.1 hc.2 (by decide))
  · split at h
    · rename_i hc
      cases h
      exact .inl (eq_of_row (f := fun m => (m + 10).digitChar) hc.1 hc.2 (by decide))
    · split at h <;> cases h
      rename_i hc
      exact .inr (eq_of_row (f := fun m => (m + 10).digitChar.toUpper) hc.1 hc.2 (by decide))

theorem hexValue?_eq_some_iff {c : Char} {n : Nat} : hexValue? c = some n ↔ IsHexDigit c n := by
  refine ⟨isHexDigit_of_hexValue?, ?_⟩
  rintro ⟨hn, rfl | rfl⟩ <;> revert n <;> decide

theorem scalar?_eq_some_iff {n : Nat} {x : Char} : scalar? n = some x ↔ x.toNat = n := by
  rw [scalar?]
  constructor
  · intro h
    split at h <;> cases h
    rename_i hv
    rw [Char.ofNat, dif_pos hv]
    rfl
  · rintro rfl
    have hv : x.toNat.isValidChar := x.valid
    rw [if_pos hv, Char.ofNat_toNat]

/-- **Four digits name the character whose code point they are.** -/
theorem codePoint?_eq_some_iff {a b c d x : Char} :
    codePoint? a b c d = some x ↔ IsCodePoint [a, b, c, d] x := by
  simp only [codePoint?, Option.bind_eq_bind, Option.bind_eq_some_iff, hexValue?_eq_some_iff,
    scalar?_eq_some_iff]
  constructor
  · rintro ⟨i, hi, j, hj, k, hk, l, hl, hx⟩
    refine ⟨rfl, [i, j, k, l], .cons hi (.cons hj (.cons hk (.cons hl .nil))), ?_⟩
    simpa using hx
  · rintro ⟨-, values, hv, hx⟩
    obtain _ | ⟨hi, _ | ⟨hj, _ | ⟨hk, _ | ⟨hl, _ | _⟩⟩⟩⟩ := hv
    refine ⟨_, hi, _, hj, _, hk, _, hl, ?_⟩
    simpa using hx

end RuleCheck.Text
