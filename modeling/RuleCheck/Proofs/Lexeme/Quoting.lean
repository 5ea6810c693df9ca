import RuleCheck.Proofs.Lexeme.Literal

/-!
# Proofs — Lexeme — texts written as literals

A text is written as a literal by writing each quote behind a backslash, and each backslash as a
unit that stands for one (`Literal.encode`).  Whatever that unit is, the body consists of units that
stand for the text (`Literal.denotes_encode`), and no quote in it closes the literal
(`Literal.bodyFrom_encode`).  So the literal is read back unless its body ends in a backslash
(`recognize_encode`).

**A backslash written as `\u005c` can stand anywhere, and one written as `\\` anywhere but at the
end of the text**, where the closing quote comes right behind it (`recognize_enclose`).
-/

namespace RuleCheck

namespace Literal

variable {backslash : Text}

theorem encode_cons (backslash : Text) (c : Char) (t : Text) :
    encode backslash (c :: t) =
      (if c = '\\' then backslash else if c = '\'' then ['\\', '\''] else [c]) ++
        encode backslash t := List.flatMap_cons

theorem encode_append (backslash s t : Text) :
    encode backslash (s ++ t) = encode backslash s ++ encode backslash t := List.flatMap_append

/-- **What is written stands for the text**, if the backslash is written as a unit. -/
theorem denotes_encode (hb : IsUnit backslash '\\') (t : Text) :
    Denotes (encode backslash t) t := by
  induction t with
  | nil => exact .nil
  | cons c t ih =>
      rw [encode_cons]
      refine .cons ?_ ih
      split
      · rename_i hc
        exact hc ▸ hb
      · rename_i hc
        split
        · rename_i hq
          subst hq
          exact .letter rfl
        · exact .plain hc

/-! ### Where what is written ends -/

/-- Whether a backslash comes right before what is behind a text. -/
def escapingBehind (escaping : Bool) (t : Text) : Bool := t.getLast?.elim escaping (· = '\\')

theorem escapingBehind_cons (escaping : Bool) (c : Char) (t : Text) :
    escapingBehind escaping (c :: t) = escapingBehind (c = '\\') t := by
  rw [escapingBehind, escapingBehind, List.getLast?_cons]
  cases t.getLast? <;> rfl

/-- A text in which no body ends is part of the body that ends behind it. -/
theorem bodyFrom_append {escaping : Bool} {t : Text} (h : bodyFrom escaping t = none) (r : Text) :
    bodyFrom escaping (t ++ r) = (bodyFrom (escapingBehind escaping t) r).map (t ++ ·) := by
  induction t generalizing escaping with
  | nil => exact (congrFun Option.map_id (bodyFrom escaping r)).symm
  | cons c t ih =>
      rw [bodyFrom] at h
      split at h
      · cases h
      · rename_i hc
        rw [List.cons_append, bodyFrom, if_neg hc, ih (Option.map_eq_none_iff.mp h),
          escapingBehind_cons, Option.map_map]
        rfl

theorem bodyFrom_of_notMem {t : Text} (h : '\'' ∉ t) (escaping : Bool) :
    bodyFrom escaping t = none := by
  induction t generalizing escaping with
  | nil => rfl
  | cons c t ih =>
      rw [List.mem_cons, not_or] at h
      rw [bodyFrom, if_neg fun hc => h.1 hc.1.symm, ih h.2, Option.map_none]

/-- No quote that is written closes the literal. -/
theorem bodyFrom_encode (hq : '\'' ∉ backslash) (escaping : Bool) (t : Text) :
    bodyFrom escaping (encode backslash t) = none := by
  induction t generalizing escaping with
  | nil => rfl
  | cons c t ih =>
      rw [encode_cons, bodyFrom_append, ih, Option.map_none]
      split
      · exact bodyFrom_of_notMem hq escaping
      · split
        · rfl
        · rename_i hc
          exact bodyFrom_of_notMem (by simpa using Ne.symm hc) escaping

theorem body?_encode (hq : '\'' ∉ backslash) {t : Text}
    (hl : (encode backslash t).getLast? ≠ some '\\') (r : Text) :
    body? (encode backslash t ++ '\'' :: r) = some (encode backslash t) := by
  have he : escapingBehind false (encode backslash t) = false := by
    rw [escapingBehind]
    cases h : (encode backslash t).getLast? with
    | none => rfl
    | some c => simpa [h] using hl
  rw [body?, bodyFrom_append (bodyFrom_encode hq false t), he, bodyFrom, if_pos ⟨rfl, rfl⟩,
    Option.map_some, List.append_nil]

/-- A body that ends in a backslash is not closed by the quote behind it. -/
theorem body?_encode_eq_none (hq : '\'' ∉ backslash) {t : Text}
    (hl : (encode backslash t).getLast? = some '\\') :
    body? (encode backslash t ++ ['\'']) = none := by
  have he : escapingBehind false (encode backslash t) = true := by
    rw [escapingBehind, hl]
    rfl
  rw [body?, bodyFrom_append (bodyFrom_encode hq false t), he]
  rfl

/-- What is written ends in a backslash where the text does and the unit for it does. -/
theorem getLast?_encode (ne : backslash ≠ []) (t : Text) :
    (encode backslash t).getLast? = some '\\' ↔
      t.getLast? = some '\\' ∧ backslash.getLast? = some '\\' := by
  rcases List.eq_nil_or_concat t with rfl | ⟨s, c, rfl⟩
  · simp [encode]
  · rw [List.concat_eq_append, encode_append, encode_cons]
    have hn : encode backslash [] = [] := rfl
    rw [hn, List.append_nil, List.getLast?_concat]
    by_cases hc : c = '\\'
    · rw [if_pos hc, List.getLast?_append_of_ne_nil _ ne]
      simp [hc]
    · rw [if_neg hc]
      split <;> simp [hc]

end Literal

/-! ### Literals read back -/

/-- What is written is read back, if it does not end in a backslash. -/
theorem recognize_encode {backslash : Text} (hb : Literal.IsUnit backslash '\\')
    (hq : '\'' ∉ backslash) {t : Text}
    (hl : (Literal.encode backslash t).getLast? ≠ some '\\') (behind r : Text) :
    Form.string.recognize ⟨behind, Literal.enclose (Literal.encode backslash t) ++ r⟩ =
      .ok (some ⟨.string t, (Literal.encode backslash t).length + 2⟩) := by
  refine (Form.recognize_string_eq_ok_iff rfl ?_).mpr
    (Literal.decode_eq_ok_iff.mpr (Literal.denotes_encode hb t))
  simpa [Literal.enclose] using Literal.body?_encode hq hl r

/-- **A text written as a literal is read back.** -/
theorem recognize_enclose (behind t : Text) :
    let coded := Literal.encode "\\u005c".toList t
    let doubled := Literal.encode "\\\\".toList t
    (∀ r, Form.string.recognize ⟨behind, Literal.enclose coded ++ r⟩ =
        .ok (some ⟨.string t, coded.length + 2⟩)) ∧
      (t.getLast? ≠ some '\\' → ∀ r,
        Form.string.recognize ⟨behind, Literal.enclose doubled ++ r⟩ =
          .ok (some ⟨.string t, doubled.length + 2⟩)) ∧
      (t.getLast? = some '\\' →
        Form.string.recognize ⟨behind, Literal.enclose doubled⟩ = .ok none) := by
  intro coded doubled
  have hd : doubled.getLast? = some '\\' ↔ t.getLast? = some '\\' ∧ _ :=
    Literal.getLast?_encode (by decide) t
  refine ⟨fun r => ?_, fun hl r => ?_, fun hl => ?_⟩
  · refine recognize_encode (.code rfl) (by decide) (fun h => ?_) behind r
    -- what is written for a backslash ends in another character
    have := ((Literal.getLast?_encode (by decide) t).mp h).2
    contradiction
  · exact recognize_encode (.letter rfl) (by decide) (fun h => hl (hd.mp h).1) behind r
  · have hb := Literal.body?_encode_eq_none (by decide) (hd.mpr ⟨hl, rfl⟩)
    rw [Form.recognize_string_of_quote rfl]
    simp only [Literal.enclose, List.cons_append, List.tail_cons]
    rw [hb]

/-- Three backslashes before the quote inside, and two before the one that should close. -/
theorem recognize_enclose_backslashes :
    "\\'b".toList.getLast? ≠ some '\\' ∧
      Form.string.recognize (.start "'\\\\\\'b', 'c'".toList) =
        .ok (some ⟨.string "\\'b".toList, 7⟩) ∧
      "b\\".toList.getLast? = some '\\' ∧
      Form.string.recognize (.start "'b\\\\'".toList) = .ok none := by
  have hl : "\\'b".toList.getLast? ≠ some '\\' := by decide
  have hl' : "b\\".toList.getLast? = some '\\' := rfl
  obtain ⟨-, hr, -⟩ := recognize_enclose [] "\\'b".toList
  obtain ⟨-, -, hn⟩ := recognize_enclose [] "b\\".toList
  exact ⟨hl, hr hl ", 'c'".toList, hl', hn hl'⟩

end RuleCheck
