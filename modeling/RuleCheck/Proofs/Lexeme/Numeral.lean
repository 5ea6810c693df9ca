import RuleCheck.Proofs.Lexeme.Recognition
import RuleCheck.Proofs.Lexeme.Spelling

/-!
# Proofs — Lexeme — numerals

**Wherever a digit stands, all the digits in a row are a number**, with the value that they denote
up to the largest word, and zeros before them add to its width alone (`recognize_numeral`).
-/

namespace RuleCheck

namespace Numeral

/-! ### Zeros before a number -/

theorem magnitude_zeros_append (k : Nat) (digits : Text) :
    magnitude (List.replicate k '0' ++ digits) = magnitude digits := by
  rw [magnitude_eq_min, magnitude_eq_min, Nat.ofDigitChars_append, Nat.ofDigitChars_replicate_zero,
    Nat.mul_zero]

theorem takeWhile_zeros_append (k : Nat) (t : Text) :
    (List.replicate k '0' ++ t).takeWhile Char.isDigit =
      List.replicate k '0' ++ t.takeWhile Char.isDigit :=
  List.takeWhile_append_of_pos fun c hc => by rw [List.eq_of_mem_replicate hc]; rfl

end Numeral

/-! ### Numbers at a place -/

theorem Place.head?_ahead (p : Place) : p.ahead.head? = p.peek? 0 := List.head?_eq_getElem? ..

/-- **Where a digit stands a number is read**, and it takes all the digits in a row. -/
theorem recognize_of_isDigit {p : Place} {c : Char} (hc : p.peek? 0 = some c) (hd : c.isDigit) :
    let digits := p.ahead.takeWhile Char.isDigit
    recognize p = .ok (some ⟨.number (Numeral.magnitude digits), digits.length⟩) := by
  intro digits
  obtain ⟨r, hp, hdigits, hr⟩ := exists_run Char.isDigit p.ahead
  obtain ⟨t, ht⟩ := List.head?_eq_some_iff.mp (p.head?_ahead.trans hc)
  have ne : digits ≠ [] := by
    simp [digits, ht, hd]
  have hread : read (digits ++ r) = .lexeme ⟨.number (Numeral.magnitude digits), digits.length⟩ :=
    read_append (.number ne hdigits) hr
  rw [recognize_eq, hp, hread]
  rfl

/-- **The magnitude is exact up to the largest word.**  Where a digit stands, the digits in a row
are a number, of whatever length, and its magnitude is what they denote or the largest word if that
is less, which is what clamping at every digit gives.  Zeros before a number only add to its
width. -/
theorem recognize_numeral :
    (∀ (p : Place) (c : Char), p.peek? 0 = some c → c.isDigit →
      let digits := p.ahead.takeWhile Char.isDigit
      let value := Nat.ofDigitChars 10 digits 0
      recognize p = .ok (some ⟨.number (min value (UInt64.size - 1)), digits.length⟩) ∧
        (Numeral.magnitudeWord digits).toNat = min value (UInt64.size - 1)) ∧
      ∀ (p q : Place) (c : Char) (k : Nat), q.peek? 0 = some c → c.isDigit →
        p.ahead = List.replicate k '0' ++ q.ahead →
        ∃ m n, recognize q = .ok (some ⟨.number m, n⟩) ∧
          recognize p = .ok (some ⟨.number m, k + n⟩) := by
  constructor
  · intro p c hc hd digits value
    have hr : recognize p = .ok (some ⟨.number (Numeral.magnitude digits), digits.length⟩) :=
      recognize_of_isDigit hc hd
    rw [Numeral.magnitude_eq_min] at hr
    exact ⟨hr, Numeral.magnitude_eq_min digits⟩
  · intro p q c k hc hd hp
    refine ⟨_, _, recognize_of_isDigit hc hd, ?_⟩
    have hdigits : p.ahead.takeWhile Char.isDigit =
        List.replicate k '0' ++ q.ahead.takeWhile Char.isDigit := by
      rw [hp, Numeral.takeWhile_zeros_append]
    -- a digit stands at `p` too: a zero, or the one at `q` if there is none
    obtain ⟨d, hpd, hdd⟩ : ∃ d, p.peek? 0 = some d ∧ d.isDigit := by
      cases k with
      | zero => exact ⟨c, by rw [← p.head?_ahead, hp, ← hc, ← q.head?_ahead]; rfl, hd⟩
      | succ k => exact ⟨'0', by rw [← p.head?_ahead, hp]; rfl, rfl⟩
    have hr := recognize_of_isDigit hpd hdd
    simp only [hdigits, Numeral.magnitude_zeros_append, List.length_append,
      List.length_replicate] at hr
    exact hr

/-- The first number that is too large for a word, with two zeros before it and without. -/
theorem recognize_numeral_too_large :
    let p := (Place.start "+0018446744073709551616)".toList).advance 1
    let q := p.advance 2
    p.peek? 0 = some '0' ∧ q.peek? 0 = some '1' ∧ p.ahead = List.replicate 2 '0' ++ q.ahead ∧
      recognize p = .ok (some ⟨.number 18446744073709551615, 22⟩) ∧
      ∃ m n, recognize q = .ok (some ⟨.number m, n⟩) ∧
        recognize p = .ok (some ⟨.number m, 2 + n⟩) := by
  intro p q
  have hp : p.peek? 0 = some '0' := rfl
  have hq : q.peek? 0 = some '1' := rfl
  have hz : p.ahead = List.replicate 2 '0' ++ q.ahead := rfl
  obtain ⟨hv, hw⟩ := recognize_numeral
  exact ⟨hp, hq, hz, (hv p _ hp rfl).1.trans (by decide +kernel), hw p q _ 2 hq rfl hz⟩

end RuleCheck
