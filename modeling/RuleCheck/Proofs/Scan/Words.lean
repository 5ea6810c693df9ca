import RuleCheck.Proofs.Scan.Language
import RuleCheck.Proofs.Scan.Neighbours

/-!
# Proofs — Scan — whole words

**An accepted text has no word as a piece of a longer one** (`whole_words`): no character of a word
comes right behind a number, a truth value, a name or a variable, and none comes right before one,
but for the variable, which has its dollar sign there.

Reading alone does not see to it.  A truth value is read at the beginning of a longer word, a number
ends where letters begin and a variable where digits do.  The next lexeme would then be a word too,
and no word may follow a word.
-/

namespace RuleCheck

open Form (isWordChar)

/-- Two lexemes of an expression that touch. -/
theorem admits_of_touching {a b : List Lexeme} {i j : Lexeme}
    (h : IsExpression (kinds (a ++ i :: j :: b))) :
    ∃ S : Slots, (S.after i.kind).admits j.kind := by
  have ha := Slots.admitsRow_kinds.mp h.1
  rw [List.map_append, Slots.admitsRow_append] at ha
  exact ⟨_, ha.2.2.1⟩

/-- Behind a word no character of a word comes. -/
theorem Lexes.not_isWordChar_behind {s : Text} {a b : List Lexeme} {l : Lexeme}
    (h : Lexes s b []) (he : IsExpression (kinds (a ++ l :: b))) (hl : l.kind.isWord) :
    ∀ c ∈ s.head?, ¬ isWordChar c := by
  cases h with
  | nil => nofun
  | @cons _ _ j b hj _ =>
      obtain ⟨S, ha⟩ := admits_of_touching he
      refine not_isWordChar_of_read hj ?_
      by_cases hb : j.kind = .blank
      · exact .inr hb
      · exact .inl (isMark_of_admits hl hb ha)

/-- Before a word that is no variable no character of a word comes. -/
theorem Lexes.not_isWordChar_before {u s : Text} {a b : List Lexeme} {l : Lexeme}
    (h : Lexes (u ++ s) a s) (he : IsExpression (kinds (a ++ l :: b))) (hl : l.kind.isWord)
    (hv : l.kind ≠ .var) : ∀ c ∈ u.getLast?, ¬ isWordChar c := by
  rcases List.eq_nil_or_concat a with rfl | ⟨a, i, rfl⟩
  · obtain ⟨v, hv, hlen⟩ := h.exists_append
    obtain rfl := List.append_cancel_right hv
    obtain rfl := List.length_eq_zero_iff.mp hlen
    nofun
  · rw [List.concat_eq_append] at h he
    rw [List.append_assoc] at he
    obtain ⟨S, ha⟩ := admits_of_touching he
    refine h.not_isWordChar_last ?_
    by_cases hb : i.kind = .blank
    · exact .inr hb
    · exact .inl (isMark_of_admits_word hb hl hv ha)

/-- **Accepted texts consist of whole words.** -/
theorem whole_words {t : Text} {c : Nat} {l : Lexeme} (h : check t = .accepted)
    (hl : (c, l) ∈ placed 0 (lexing t).lexemes)
    (hk : l.kind = .number ∨ l.kind = .boolean ∨ l.kind = .function ∨ l.kind = .var) :
    (∀ d ∈ (t.drop (c + l.width)).head?, ¬ isWordChar d) ∧
      (l.kind ≠ .var → ∀ d ∈ (t.take c).getLast?, ¬ isWordChar d) := by
  obtain ⟨hx, he⟩ := lexes_of_accepted h
  obtain ⟨a, b, hr, rfl⟩ := mem_placed_iff.mp hl
  rw [hr] at hx he
  rw [Nat.zero_add]
  have hw : l.kind.isWord := by rcases hk with hk | hk | hk | hk <;> rw [hk] <;> rfl
  obtain ⟨u, s, rfl, hlen, ha, hs⟩ := hx.cut
  rw [← hlen, List.take_left, List.drop_length_add_append]
  cases hs with
  | cons hl hb => exact ⟨hb.not_isWordChar_behind he hw, ha.not_isWordChar_before he hw⟩

/-- Before the name the operator's blank stands, and behind it the parenthesis. -/
theorem whole_words_name :
    check "1 or max2($A)".toList = .accepted ∧
      (5, ⟨.function "max2".toList, 4⟩) ∈ placed 0 (lexing "1 or max2($A)".toList).lexemes ∧
      (∀ d ∈ ("1 or max2($A)".toList.drop 9).head?, ¬ isWordChar d) ∧
      ∀ d ∈ ("1 or max2($A)".toList.take 5).getLast?, ¬ isWordChar d := by
  have h : check "1 or max2($A)".toList = .accepted := by decide +kernel
  have hl : (5, ⟨.function "max2".toList, 4⟩) ∈
      placed 0 (lexing "1 or max2($A)".toList).lexemes := by decide +kernel
  obtain ⟨hr, hb⟩ := whole_words h hl (.inr (.inr (.inl rfl)))
  exact ⟨h, hl, hr, hb nofun⟩

/-- A longer word is read as two words that touch, and is no expression. -/
example : (lexing "trueish".toList).lexemes.map Lexeme.kind = [.boolean, .function] ∧
    check "trueish".toList = .rejected ⟨4, .unexpected .function⟩ := by
  decide +kernel

end RuleCheck
