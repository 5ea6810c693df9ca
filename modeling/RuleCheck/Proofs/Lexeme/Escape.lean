import RuleCheck.Proofs.Lexeme.First
import RuleCheck.Lexeme.Literal

/-!
# Proofs — Lexeme — escapes that stand for nothing

Decoding stops at an escape that stands for nothing, and tells its place and what is behind its
backslash (`Literal.hasBadEscape_of_decode`).  Of that it tells no more than five characters, and
none only if there are none.  But **in the body of a literal there always are some**
(`Literal.ne_nil_of_hasBadEscape`): the quote that ends the body does not come right behind a
backslash.

Places are counted on from an offset, and the offset is all that it matters to
(`Literal.decode_add`).
-/

namespace RuleCheck

namespace Literal

/-- A body with an escape that stands for nothing, where places are counted on from `offset`. -/
inductive HasBadEscape (offset : Nat) : Text → BadEscape → Prop where
  | intro (x sequence y : Text) (hl : sequence.length ≤ 5) (hn : sequence = [] → y = []) :
      HasBadEscape offset (x ++ '\\' :: (sequence ++ y)) ⟨offset + x.length, sequence⟩

theorem HasBadEscape.append {offset : Nat} {raw : Text} {e : BadEscape} (u : Text)
    (h : HasBadEscape (offset + u.length) raw e) : HasBadEscape offset (u ++ raw) e := by
  cases h with
  | intro x sequence y hl hn =>
      rw [← List.append_assoc, Nat.add_assoc, ← List.length_append]
      exact .intro (u ++ x) sequence y hl hn

theorem map_eq_error {α β : Type} {f : α → β} {r : Except BadEscape α} {e : BadEscape}
    (h : r.map f = .error e) : r = .error e := by
  cases r with
  | error => exact congrArg Except.error (Except.error.inj h)
  | ok => cases h

/-- What does not begin with four characters has no more than four. -/
theorem length_le_of_short {t : Text} (h : ∀ a b c d r, t = a :: b :: c :: d :: r → False) :
    t.length ≤ 4 := by
  match t with
  | [] | [_] | [_, _] | [_, _, _] => simp
  | a :: b :: c :: d :: r => exact absurd rfl (h a b c d r)

/-- **Where decoding stops** there is an escape that stands for nothing. -/
theorem hasBadEscape_of_decode {offset : Nat} {raw : Text} {e : BadEscape}
    (h : decode offset raw = .error e) : HasBadEscape offset raw e := by
  fun_induction decode offset raw with
  | case1 => cases h
  | case2 offset a b c d t x hx ih => exact (ih (map_eq_error h)).append ['\\', 'u', a, b, c, d]
  | case3 offset a b c d t hx =>
      cases h
      exact .intro [] ['u', a, b, c, d] t (Nat.le_refl 5) nofun
  | case4 offset t ht =>
      cases h
      have hl : t.length ≤ 4 := length_le_of_short ht
      have h : HasBadEscape offset ('\\' :: ('u' :: t ++ [])) ⟨offset, 'u' :: t⟩ :=
        .intro [] ('u' :: t) [] (Nat.succ_le_succ hl) nofun
      rwa [List.append_nil] at h
  | case5 offset c t _ _ x hx ih => exact (ih (map_eq_error h)).append ['\\', c]
  | case6 offset c t =>
      cases h
      exact .intro [] [c] t (Nat.le_add_left 1 4) nofun
  | case7 =>
      cases h
      exact .intro [] [] [] (by decide) fun _ => rfl
  | case8 offset c t _ _ _ _ ih => exact (ih (map_eq_error h)).append [c]

/-- What is told of an escape is one character, or `u` and what is there of four more. -/
theorem sequence_of_decode {offset : Nat} {raw : Text} {e : BadEscape}
    (h : decode offset raw = .error e) :
    e.sequence.length ≤ 1 ∨ ∃ t, e.sequence = 'u' :: t ∧ t.length ≤ 4 := by
  fun_induction decode offset raw with
  | case1 => cases h
  | case2 _ _ _ _ _ _ _ _ ih | case5 _ _ _ _ _ _ _ ih | case8 _ _ _ _ _ _ _ ih =>
      exact ih (map_eq_error h)
  | case3 offset a b c d t hx =>
      cases h
      exact .inr ⟨_, rfl, Nat.le_refl 4⟩
  | case4 offset t ht =>
      cases h
      exact .inr ⟨t, rfl, length_le_of_short ht⟩
  | case6 | case7 =>
      cases h
      exact .inl (by simp)

/-- The escape with its place counted on from `n`. -/
def BadEscape.shift (n : Nat) (e : BadEscape) : BadEscape := { e with offset := n + e.offset }

theorem map_mapError {ε α β : Type} (f : ε → ε) (g : α → β) (r : Except ε α) :
    (r.mapError f).map g = (r.map g).mapError f := by
  cases r <;> rfl

/-- **Places are counted on** from the offset. -/
theorem decode_add (n offset : Nat) (raw : Text) :
    decode (n + offset) raw = (decode offset raw).mapError (.shift n) := by
  fun_induction decode offset raw with
  | case1 | case7 => rfl
  | case2 offset a b c d t x hx ih =>
      rw [decode, hx, ← map_mapError, ← ih]
      rfl
  | case3 offset a b c d t hx =>
      rw [decode, hx]
      rfl
  | case4 offset t ht =>
      rw [decode]
      · rfl
      · exact ht
  | case5 offset c t h₁ h₂ x hx ih =>
      rw [decode]
      · rw [hx, ← map_mapError, ← ih]
        rfl
      · exact h₁
      · exact h₂
  | case6 offset c t h₁ h₂ hx =>
      rw [decode]
      · rw [hx]
        rfl
      · exact h₁
      · exact h₂
  | case8 offset c t h₁ h₂ h₃ h₄ ih =>
      -- no backslash comes first
      rw [decode]
      · rw [← map_mapError, ← ih]
        rfl
      all_goals assumption

/-! ### The end of a body -/

/-- No backslash comes right before the quote that ends a body. -/
theorem getLast?_ne_of_bodyFrom {escaping : Bool} {t raw : Text}
    (h : bodyFrom escaping t = some raw) :
    raw.getLast? ≠ some '\\' ∧ (raw = [] → escaping = false) := by
  induction t generalizing escaping raw with
  | nil => cases h
  | cons c t ih =>
      rw [bodyFrom] at h
      split at h
      · rename_i hc
        cases h
        exact ⟨(Option.some_ne_none _).symm, fun _ => hc.2⟩
      · obtain ⟨u, hu, rfl⟩ := Option.map_eq_some_iff.mp h
        obtain ⟨hl, hn⟩ := ih hu
        refine ⟨?_, fun hcu => absurd hcu (List.cons_ne_nil c u)⟩
        rw [List.getLast?_cons]
        cases hlu : u.getLast? with
        | some d => rwa [hlu] at hl
        | none =>
            -- the body ends with this character, and the quote comes right behind it
            have := hn (List.getLast?_eq_none_iff.mp hlu)
            simpa using this

theorem ne_nil_of_hasBadEscape {offset : Nat} {t raw : Text} {e : BadEscape}
    (hb : body? t = some raw) (h : HasBadEscape offset raw e) : e.sequence ≠ [] := by
  cases h with
  | intro x sequence y _ hn =>
      rintro rfl
      obtain rfl := hn rfl
      exact (getLast?_ne_of_bodyFrom hb).1 (by simp)

end Literal

end RuleCheck
