import RuleCheck.Proofs.Lexeme.Extension
import RuleCheck.Proofs.Scan.Language
import RuleCheck.Proofs.Scan.Neighbours

/-!
# Proofs — Scan — blanks can be left out

A text is compacted by leaving out the blanks between its lexemes and keeping the characters of all
others (`compact`).  A word operator keeps the two blanks of its spelling.

**A text that is accepted is accepted compacted, and has the same lexemes but the blanks**
(`check_compact`).  In general leaving out a blank makes one lexeme of two, or an operator of a
name.  In an expression it does not, since what may follow a lexeme never begins like something that
the lexeme goes on with (`clear_of_admits`): behind a number, a name, a variable or a path there is
an operator, a sign, a parenthesis or a comma.
-/

namespace RuleCheck

open Form (isPathChar)

/-- The characters that the lexemes of a row take at the beginning of a text, but the blanks. -/
def squeeze : List Lexeme → Text → Text
  | [], _     => []
  | l :: r, t =>
      if l.kind = .blank then squeeze r (t.drop l.width)
      else t.take l.width ++ squeeze r (t.drop l.width)

/-- A text without the blanks between its lexemes. -/
def compact (t : Text) : Text := squeeze (lexing t).lexemes t

theorem squeeze_cons_blank {l : Lexeme} {r : List Lexeme} {t : Text} (h : l.kind = .blank) :
    squeeze (l :: r) t = squeeze r (t.drop l.width) := if_pos h

theorem squeeze_cons {l : Lexeme} {r : List Lexeme} {t : Text} (h : l.kind ≠ .blank) :
    squeeze (l :: r) t = t.take l.width ++ squeeze r (t.drop l.width) := if_neg h

/-! ### What may follow begins anew -/

/-- A path goes up to a parenthesis or a comma. -/
theorem not_isPathChar_of_read {t : Text} {l : Lexeme} {c : Char} (h : read t = .lexeme l)
    (hk : l.kind = .rightParen ∨ l.kind = .comma) (hc : c ∈ t.head?) : ¬ isPathChar c := by
  obtain ⟨k, n⟩ := l
  obtain ⟨w, r, rfl, -, hs, -⟩ := stands_of_read h
  cases hs with
  | rightParen | comma =>
      cases hc
      decide
  | _ => rcases hk with hk | hk <;> cases hk

theorem closes_of_admits_path {S : Slots} {k : Kind} (hk : k ≠ .blank)
    (ha : (S.after .path).admits k) : k = .rightParen ∨ k = .comma := by
  cases k with
  | rightParen => exact .inl rfl
  | comma => exact .inr rfl
  | _ => contradiction

/-- **A lexeme is clear of what may follow it.** -/
theorem clear_of_admits {S : Slots} {k : Token} {l : Lexeme} {w t : Text} (hl : read t = .lexeme l)
    (hb : l.kind ≠ .blank) (hk : k.kind ≠ .blank) (ha : (S.after k.kind).admits l.kind) :
    Clear k w t := by
  cases k with
  | blank => contradiction
  | boolean | string | leftParen | rightParen | comma | plus | minus => trivial
  | operator =>
      rintro - rfl
      rw [read_nil] at hl
      cases hl
  | number | function | var =>
      have hm := isMark_of_admits rfl hb ha
      exact clear_of_not_isWordChar nofun nofun nofun (not_isWordChar_of_read hl (.inl hm))
  | path =>
      intro c hc
      exact not_isPathChar_of_read hl (closes_of_admits_path hb ha) hc

theorem clear_nil {k : Token} {w : Text} (h : k.kind.mayEnd) : Clear k w [] := by
  cases k with
  | operator | blank => cases h
  | number | function | var | path => exact nofun
  | _ => trivial

/-- A lexeme is clear of the text of a row that may follow it. -/
theorem Lexes.clear {S : Slots} {k : Token} {w t : Text} {r : List Lexeme} (h : Lexes t r [])
    (hb : ∀ l ∈ r, l.kind ≠ .blank) (hk : k.kind ≠ .blank)
    (ha : (S.after k.kind).AdmitsRow (r.map Lexeme.kind)) (he : r = [] → k.kind.mayEnd) :
    Clear k w t := by
  cases h with
  | nil => exact clear_nil (he rfl)
  | cons hl _ => exact clear_of_admits hl (hb _ (List.mem_cons_self ..)) hk ha.1

/-! ### Compacting a text -/

/-- **A text of lexemes that may come where they do has the same lexemes compacted.** -/
theorem lexes_squeeze {t t' : Text} {r : List Lexeme} {S : Slots} (h : Lexes t r t')
    (ht : t' = []) (ha : S.AdmitsRow (kinds r)) (he : ∀ k ∈ (kinds r).getLast?, k.mayEnd) :
    Lexes (squeeze r t) (significant r) [] := by
  induction h generalizing S with
  | nil => exact .nil []
  | @cons t t' l r h hr ih =>
      by_cases hb : l.kind = .blank
      · rw [squeeze_cons_blank hb, significant_cons_blank hb]
        rw [kinds_cons_blank hb] at ha he
        exact ih ht ha he
      · rw [squeeze_cons hb, significant_cons hb]
        rw [kinds_cons hb] at ha he
        obtain ⟨w, x, rfl, hw, hs, -⟩ := stands_of_read h
        rw [← hw, List.drop_left] at ih
        rw [← hw, List.drop_left, List.take_left]
        have hx := ih ht ha.2 fun k hk => he k (List.mem_getLast?_cons hk)
        have hc : Clear l.token w (squeeze r x) := by
          refine hx.clear (fun j hj => ?_) hb ha.2 fun hn => he l.kind ?_
          · simpa using (List.mem_filter.mp hj).2
          · rw [kinds, hn]
            rfl
        have := Lexes.spell hs hc hx
        rwa [hw] at this

/-- **Blanks can be left out.** -/
theorem check_compact {t : Text} (h : check t = .accepted) :
    check (compact t) = .accepted ∧
      ∃ r, lexemes? t = some r ∧ lexemes? (compact t) = some (significant r) := by
  obtain ⟨r, hr, he⟩ := check_eq_accepted_iff.mp h
  have hx := lexemes?_eq_some_iff.mp hr
  have hl : ∀ k ∈ (kinds r).getLast?, k.mayEnd := by
    intro k hk
    have := he.2.2
    rwa [Option.mem_def.mp hk] at this
  have hc : compact t = squeeze r t := by
    rw [compact, hx.lexing_eq, lexing_of_ne (t := []) (by simp)]
    simp
  have hs : lexemes? (compact t) = some (significant r) := by
    rw [hc]
    exact lexemes?_eq_some_iff.mpr (lexes_squeeze hx rfl he.1 hl)
  refine ⟨check_eq_accepted_iff.mpr ⟨_, hs, ?_⟩, r, hr, hs⟩
  rwa [kinds, significant_significant, ← kinds]

/-- Of the two blanks before the word one belongs to it. -/
theorem check_compact_word_operator :
    check "1  or max ( 2 )".toList = .accepted ∧
      compact "1  or max ( 2 )".toList = "1 or max(2)".toList ∧
      check "1 or max(2)".toList = .accepted := by
  have h : check "1  or max ( 2 )".toList = .accepted := by decide +kernel
  have hc : compact "1  or max ( 2 )".toList = "1 or max(2)".toList := by decide +kernel
  exact ⟨h, hc, hc ▸ (check_compact h).1⟩

end RuleCheck
