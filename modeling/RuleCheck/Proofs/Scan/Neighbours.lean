import RuleCheck.Proofs.Lexeme.Row
import RuleCheck.Proofs.Grammar.Row

/-!
# Proofs — Scan — neighbours

Numbers, truth values, names and variables are words; operators, signs, parentheses and commas are
marks, which begin and end with no character of a word (`Spells.not_isWordChar`).

Of two lexemes that come right after each other, one that follows a word is a mark
(`isMark_of_admits`), and so is one that a word follows, unless that word is a variable
(`isMark_of_admits_word`).
-/

namespace RuleCheck

open Form (isWordChar)

/-- The kinds that begin and end with no character of a word. -/
def Kind.isMark : Kind → Bool
  | .operator | .leftParen | .rightParen | .comma | .plus | .minus => true
  | _                                                             => false

/-- The kinds whose characters are those of words, but for a variable's dollar sign. -/
def Kind.isWord : Kind → Bool
  | .boolean | .number | .function | .var => true
  | _                                     => false

/-! ### Which kinds meet -/

/-- What follows a word is a mark. -/
theorem isMark_of_admits {S : Slots} {j k : Kind} (hj : j.isWord) (hk : k ≠ .blank)
    (ha : (S.after j).admits k) : k.isMark := by
  cases j with
  | boolean | number | function | var =>
      cases k with
      | operator | leftParen | rightParen | comma | plus | minus => rfl
      | blank => contradiction
      | _ => cases ha
  | _ => cases hj

/-- What a word follows is a mark, unless the word is a variable. -/
theorem isMark_of_admits_word {S : Slots} {j k : Kind} (hj : j ≠ .blank) (hk : k.isWord)
    (hv : k ≠ .var) (ha : (S.after j).admits k) : j.isMark := by
  cases j with
  | operator | leftParen | rightParen | comma | plus | minus => rfl
  | blank => contradiction
  | boolean | number | string | var | path | function =>
      cases k with
      | boolean | number | function => cases ha
      | var => contradiction
      | _ => cases hk

/-! ### Which characters meet -/

/-- A mark or a blank begins and ends with no character of a word. -/
theorem Spells.not_isWordChar {k : Token} {w : Text} (hs : Spells k w)
    (hk : k.kind.isMark ∨ k.kind = .blank) :
    (∀ c ∈ w.head?, ¬ isWordChar c) ∧ ∀ c ∈ w.getLast?, ¬ isWordChar c := by
  cases hs with
  | operator op =>
      refine ⟨fun c hc => ?_, fun c hc => ?_⟩ <;> cases op <;> cases hc <;> decide
  | leftParen | rightParen | comma | plus | minus =>
      refine ⟨fun c hc => ?_, fun c hc => ?_⟩ <;> cases hc <;> decide
  | @blank c h =>
      have hc := not_isWordChar_of_isWhitespace h
      exact ⟨by simpa using hc, by simpa using hc⟩
  | _ => rcases hk with hk | hk <;> cases hk

/-- No character of a word comes first where a mark or a blank does. -/
theorem Spells.not_isWordChar_append {k : Token} {w : Text} (hs : Spells k w)
    (hk : k.kind.isMark ∨ k.kind = .blank) (t : Text) : ∀ c ∈ (w ++ t).head?, ¬ isWordChar c := by
  obtain ⟨d, w, rfl⟩ := List.exists_cons_of_ne_nil hs.ne_nil
  exact (hs.not_isWordChar hk).1

theorem not_isWordChar_of_read {t : Text} {l : Lexeme} (h : read t = .lexeme l)
    (hk : l.kind.isMark ∨ l.kind = .blank) : ∀ c ∈ t.head?, ¬ isWordChar c := by
  obtain ⟨w, x, rfl, -, hs, -⟩ := stands_of_read h
  exact hs.not_isWordChar_append hk x

/-- Behind a row whose last lexeme is a mark or a blank no word has begun. -/
theorem Lexes.not_isWordChar_last {u s : Text} {r : List Lexeme} {l : Lexeme}
    (h : Lexes (u ++ s) (r ++ [l]) s) (hk : l.kind.isMark ∨ l.kind = .blank) :
    ∀ c ∈ u.getLast?, ¬ isWordChar c := by
  obtain ⟨v, w, rfl, hs, -, -⟩ := h.concat
  obtain ⟨d, hd⟩ : ∃ d, w.getLast? = some d := ⟨_, List.getLast?_eq_some_getLast hs.ne_nil⟩
  have hl : (v ++ w).getLast? = w.getLast? := by
    rw [List.getLast?_append, hd]
    rfl
  rw [hl]
  exact (hs.not_isWordChar hk).2

end RuleCheck
