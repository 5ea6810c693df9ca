import RuleCheck.Proofs.Lexeme.Recognition
import RuleCheck.Proofs.Lexeme.Unit

/-!
# Proofs — Lexeme — string literals

The body of a literal ends at the first quote that does not come right behind a backslash
(`Literal.body?_eq_take`), and without such a quote there is no literal (`Literal.body?_eq_none`).
What the backslash means does not matter to that, while decoding goes by the units of the body.

**A literal is found exactly where a body ends and consists of units**, and it stands for the
characters of these; where a body ends that does not, the fault is at the first backslash that
begins no unit (`recognize_literal`).
-/

namespace RuleCheck

namespace Literal

/-! ### The end of a body -/

/-- A quote that does not come right behind a backslash. -/
def ClosesAt (t : Text) (k : Nat) : Prop := t[k]? = some '\'' ∧ (k = 0 ∨ t[k - 1]? ≠ some '\\')

instance (t : Text) (k : Nat) : Decidable (ClosesAt t k) := inferInstanceAs (Decidable (_ ∧ _))

/-- The same in a text with a character before it. -/
def ClosesBehind (c : Char) (t : Text) (k : Nat) : Prop :=
  t[k]? = some '\'' ∧ (c :: t)[k]? ≠ some '\\'

variable {c d : Char} {t : Text} {k : Nat}

theorem closesBehind_zero : ClosesBehind c (d :: t) 0 ↔ d = '\'' ∧ c ≠ '\\' := by
  simp [ClosesBehind]

theorem closesBehind_succ : ClosesBehind c (d :: t) (k + 1) ↔ ClosesBehind d t k := Iff.rfl

theorem closesBehind_quote : ClosesBehind '\'' t k ↔ ClosesAt t k := by
  cases k with
  | zero => simp [ClosesBehind, ClosesAt]
  | succ k => simp [ClosesBehind, ClosesAt]

theorem bodyFrom_eq_none (h : ∀ k, ¬ ClosesBehind c t k) : bodyFrom (c = '\\') t = none := by
  induction t generalizing c with
  | nil => rfl
  | cons d t ih =>
      have hd : ¬ (d = '\'' ∧ decide (c = '\\') = false) := by
        simpa [closesBehind_zero] using h 0
      rw [bodyFrom, if_neg hd, ih fun k => h (k + 1), Option.map_none]

/-- The body goes up to the first place where it can be closed. -/
theorem bodyFrom_eq_take (h : ClosesBehind c t k) (hk : ∀ j < k, ¬ ClosesBehind c t j) :
    bodyFrom (c = '\\') t = some (t.take k) := by
  induction t generalizing c k with
  | nil => cases h.1
  | cons d t ih =>
      cases k with
      | zero =>
          rw [bodyFrom, if_pos (by simpa [closesBehind_zero] using h), List.take_zero]
      | succ k =>
          have hd : ¬ (d = '\'' ∧ decide (c = '\\') = false) := by
            simpa [closesBehind_zero] using hk 0 (Nat.succ_pos k)
          have hb := ih (closesBehind_succ.mp h) fun j hj => hk (j + 1) (Nat.succ_lt_succ hj)
          rw [bodyFrom, if_neg hd, hb, Option.map_some, List.take_succ_cons]

/-- A body with no end is none. -/
theorem body?_eq_none (h : ∀ k, ¬ ClosesAt t k) : body? t = none :=
  bodyFrom_eq_none (c := '\'') fun k hk => h k (closesBehind_quote.mp hk)

/-- **A body ends at the first quote that does not come right behind a backslash.** -/
theorem body?_eq_take (h : ClosesAt t k) (hk : ∀ j < k, ¬ ClosesAt t j) :
    body? t = some (t.take k) :=
  bodyFrom_eq_take (c := '\'') (closesBehind_quote.mpr h)
    fun j hj hc => hk j hj (closesBehind_quote.mp hc)

end Literal

/-! ### Literals at a place -/

section

variable {p : Place} {raw : Text}

theorem Form.recognize_string_of_quote (h : p.peek? 0 = some '\'') :
    Form.string.recognize p = match Literal.body? p.ahead.tail with
      | none     => .ok none
      | some raw =>
          match Literal.decode (p.column + 1) raw with
          | .ok content => .ok (some ⟨.string content, raw.length + 2⟩)
          | .error e    => .error ⟨e.offset, .badEscape e.sequence⟩ := by
  have hd : p.textFrom (p.column + 1) = p.ahead.tail := by
    rw [Place.ahead_eq_drop, List.tail_drop, Place.textFrom]
  rw [← hd]
  exact if_pos h

theorem Form.recognize_string_of_body (h : p.peek? 0 = some '\'')
    (hb : Literal.body? p.ahead.tail = some raw) :
    Form.string.recognize p = match Literal.decode (p.column + 1) raw with
      | .ok content => .ok (some ⟨.string content, raw.length + 2⟩)
      | .error e    => .error ⟨e.offset, .badEscape e.sequence⟩ := by
  rw [Form.recognize_string_of_quote h, hb]

theorem Form.recognize_string_eq_ok_iff (h : p.peek? 0 = some '\'')
    (hb : Literal.body? p.ahead.tail = some raw) {t : Text} :
    Form.string.recognize p = .ok (some ⟨.string t, raw.length + 2⟩) ↔
      Literal.decode (p.column + 1) raw = .ok t := by
  rw [Form.recognize_string_of_body h hb]
  cases Literal.decode (p.column + 1) raw <;> simp

theorem Form.recognize_string_eq_error_iff (h : p.peek? 0 = some '\'')
    (hb : Literal.body? p.ahead.tail = some raw) {place : Nat} {sequence : Text} :
    Form.string.recognize p = .error ⟨place, .badEscape sequence⟩ ↔
      Literal.decode (p.column + 1) raw = .error ⟨place, sequence⟩ := by
  rw [Form.recognize_string_of_body h hb]
  cases Literal.decode (p.column + 1) raw with
  | ok t => simp
  | error e =>
      obtain ⟨offset, sequence'⟩ := e
      simp

end

/-- **A literal stands exactly where a body ends and consists of units.** -/
theorem recognize_literal (p : Place) (h : p.peek? 0 = some '\'') :
    let body := p.ahead.tail
    (∀ u x, Literal.IsUnit u x ↔
      u = [x] ∧ x ≠ '\\' ∨ (∃ c, u = ['\\', c] ∧ (c, x) ∈ Literal.letters) ∨
        ∃ digits, u = '\\' :: 'u' :: digits ∧ Text.IsCodePoint digits x) ∧
      ((∀ k, ¬ Literal.ClosesAt body k) → Form.string.recognize p = .ok none) ∧
      ∀ k, Literal.ClosesAt body k → (∀ j < k, ¬ Literal.ClosesAt body j) →
        let raw := body.take k
        (∀ t, Form.string.recognize p = .ok (some ⟨.string t, k + 2⟩) ↔
            ∃ us, Literal.Consists raw us ∧ us.map Prod.snd = t) ∧
          (∀ us vs, Literal.Consists raw us → Literal.Consists raw vs → us = vs) ∧
          (∀ place, (∃ sequence, Form.string.recognize p = .error ⟨place, .badEscape sequence⟩) ↔
            Literal.StopsAt (p.column + 1) raw place) ∧
          ((∀ us, ¬ Literal.Consists raw us) →
            ∃ place, Literal.StopsAt (p.column + 1) raw place) := by
  intro body
  refine ⟨fun _ _ => Literal.isUnit_iff, fun hn => ?_, fun k hk hj => ?_⟩
  · rw [Form.recognize_string_of_quote h, Literal.body?_eq_none hn]
  · intro raw
    have hb : Literal.body? body = some raw := Literal.body?_eq_take hk hj
    have hlen : raw.length = k := by
      obtain ⟨hlt, -⟩ := List.getElem?_eq_some_iff.mp hk.1
      exact List.length_take_of_le (Nat.le_of_lt hlt)
    refine ⟨fun t => ?_, fun _ _ => Literal.Consists.eq, fun place => ?_, fun hn => ?_⟩
    · rw [← hlen, Form.recognize_string_eq_ok_iff h hb, Literal.decode_eq_ok_iff,
        Literal.denotes_iff]
    · simp only [Form.recognize_string_eq_error_iff h hb, Literal.decode_eq_error_iff]
    · cases hd : Literal.decode (p.column + 1) raw with
      | ok t =>
          obtain ⟨us, hus, -⟩ := Literal.denotes_iff.mp (Literal.decode_eq_ok_iff.mp hd)
          exact absurd hus (hn us)
      | error e => exact ⟨e.offset, Literal.stopsAt_of_decode hd⟩

/-- The quote behind the backslash is part of the body. -/
theorem recognize_literal_quote :
    let p := (Place.start "f('it\\'s \\u0041')".toList).advance 2
    p.peek? 0 = some '\'' ∧ Literal.ClosesAt p.ahead.tail 12 ∧
      (∀ j < 12, ¬ Literal.ClosesAt p.ahead.tail j) ∧
      Form.string.recognize p = .ok (some ⟨.string "it's A".toList, 14⟩) := by
  intro p
  have hp : p.peek? 0 = some '\'' := rfl
  have hk : Literal.ClosesAt p.ahead.tail 12 := by decide
  have hj : ∀ j < 12, ¬ Literal.ClosesAt p.ahead.tail j := by decide
  have hd : Literal.decode 1 (p.ahead.tail.take 12) = .ok "it's A".toList := rfl
  obtain ⟨-, -, hr⟩ := recognize_literal p hp
  have hu := Literal.denotes_iff.mp (Literal.decode_eq_ok_iff.mp hd)
  exact ⟨hp, hk, hj, ((hr 12 hk hj).1 _).mpr hu⟩

end RuleCheck
