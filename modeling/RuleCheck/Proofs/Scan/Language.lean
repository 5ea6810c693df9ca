import RuleCheck.Proofs.Grammar.Parsing
import RuleCheck.Proofs.Scan.Steps

/-!
# Proofs — Scan — the language accepted

A text is accepted exactly if it consists of lexemes whose kinds are an expression
(`check_eq_accepted_iff`): the run admits them one by one, and at the end it asks whether the
parentheses balance and whether the last lexeme may end an expression.

So **the texts accepted are those that the grammar derives** (`check_eq_accepted_iff_derives`).  The
run knows nothing of the phrases that an expression is made of; a set, a mark for calls and a
counter take their place.
-/

namespace RuleCheck

theorem Scan.finish_eq_accepted_iff {s : Scan} :
    s.finish = .accepted ↔ s.progress.missing? = none := by
  rw [finish]
  split <;> simp_all

/-! ### The verdict on a text by its lexemes -/

/-- Where every lexeme may come, the end of the text decides. -/
theorem check_of_admitsRow {t : Text} {r : List Lexeme} (h : Lexes t r [])
    (ha : Slots.start.AdmitsRow (kinds r)) :
    check t = match (Progress.start.afterRow (kinds r)).missing? with
      | none   => .accepted
      | some c => .rejected ⟨t.length, c⟩ := by
  obtain ⟨s, hs, he⟩ := Scan.exists_steps (s := .start t) h rfl (Slots.admitsRow_kinds.mp ha)
  have hsize : s.place.size = t.length := congrArg List.length hs.text_eq
  rw [hs.check_eq, Scan.run_of_end hs.reported_eq he, Scan.finish, hs.progress_eq, hsize,
    ← Progress.afterRow_kinds]
  rfl

/-- The first lexeme that may not come where it is settles the verdict. -/
theorem check_of_misplaced {t t' : Text} {a b : List Lexeme} {l : Lexeme}
    (h : Lexes t (a ++ l :: b) t') (ha : Slots.start.AdmitsRow (kinds a))
    (hl : (Slots.start.afterRow (kinds a)).admits l.kind = false) :
    check t = .rejected ⟨totalWidth a, .unexpected l.kind⟩ := by
  obtain ⟨x, hx, hr⟩ := h.split
  cases hr with
  | cons hr _ =>
      obtain ⟨s, hs, he⟩ := Scan.exists_steps (s := .start t) hx rfl (Slots.admitsRow_kinds.mp ha)
      have hp : s.progress.admits l.kind = false := by
        rw [Progress.admits, hs.progress_eq, ← Progress.afterRow_kinds, Progress.slots_afterRow]
        exact hl
      have hc : s.place.column = totalWidth a := hs.column_eq.trans (Nat.zero_add _)
      have hn : s.next = .error ⟨totalWidth a, .unexpected l.kind⟩ := by
        rw [Scan.next, he, hr]
        simp [hp, hc]
      have ne : s.place.ahead ≠ [] := by
        rintro hne
        rw [← he, hne, read_nil] at hr
        cases hr
      rw [hs.check_eq, Scan.run_of_error hs.reported_eq ne hn]

/-- Where no lexeme begins behind lexemes that may come, the character there settles the verdict. -/
theorem check_of_nothing {t t' : Text} {c : Char} {r : List Lexeme} (h : Lexes t r (c :: t'))
    (ha : Slots.start.AdmitsRow (kinds r)) (hc : read (c :: t') = .nothing) :
    check t = .rejected ⟨totalWidth r, .unknown c⟩ := by
  obtain ⟨s, hs, he⟩ := Scan.exists_steps (s := .start t) h rfl (Slots.admitsRow_kinds.mp ha)
  have hcol : s.place.column = totalWidth r := hs.column_eq.trans (Nat.zero_add _)
  have hn : s.next = .error ⟨totalWidth r, .unknown c⟩ := by
    rw [Scan.next, he, hc, hcol]
    rfl
  have ne : s.place.ahead ≠ [] := by simp [he]
  rw [hs.check_eq, Scan.run_of_error hs.reported_eq ne hn]

/-- **A text is accepted exactly if the kinds of its lexemes are an expression.** -/
theorem check_eq_accepted_iff {t : Text} :
    check t = .accepted ↔ ∃ r, lexemes? t = some r ∧ IsExpression (kinds r) := by
  constructor
  · intro h
    obtain ⟨hs, ⟨he, hv⟩ | ⟨-, f, -, hv⟩⟩ := Scan.steps_halt (s := .start t) rfl
    · refine ⟨_, lexemes?_eq_some_iff.mpr (he ▸ hs.lexes), ?_⟩
      have hm := Scan.finish_eq_accepted_iff.mp (hv.symm.trans h)
      rw [hs.progress_eq, ← Progress.afterRow_kinds] at hm
      exact ⟨Slots.admitsRow_kinds.mpr hs.admitsRow,
        (Progress.missing?_afterRow_start fun k hk => ne_blank_of_mem_kinds hk).mp hm⟩
    · rw [check, hv] at h
      cases h
  · rintro ⟨r, hr, ha, hm⟩
    rw [check_of_admitsRow (lexemes?_eq_some_iff.mp hr) ha,
      (Progress.missing?_afterRow_start fun k hk => ne_blank_of_mem_kinds hk).mpr hm]

/-- An accepted text consists of its lexemes, and their kinds are an expression. -/
theorem lexes_of_accepted {t : Text} (h : check t = .accepted) :
    Lexes t (lexing t).lexemes [] ∧ IsExpression (kinds (lexing t).lexemes) := by
  obtain ⟨r, hr, he⟩ := check_eq_accepted_iff.mp h
  have hx := lexemes?_eq_some_iff.mp hr
  rw [hx.lexemes_eq]
  exact ⟨hx, he⟩

theorem accepted_of_lexes {t : Text} {r : List Lexeme} (h : Lexes t r [])
    (he : IsExpression (kinds r)) : check t = .accepted :=
  check_eq_accepted_iff.mpr ⟨r, lexemes?_eq_some_iff.mpr h, he⟩

/-- **The texts accepted are those that the grammar derives**: they consist of lexemes, and the
grammar derives the kinds of these but the blanks. -/
theorem check_eq_accepted_iff_derives {t : Text} :
    check t = .accepted ↔ ∃ r, lexemes? t = some r ∧ Derives .top (kinds r) := by
  rw [check_eq_accepted_iff]
  refine exists_congr fun r => and_congr_right fun _ => ?_
  exact (derives_iff_isExpression fun hb => ne_blank_of_mem_kinds hb rfl).symm

end RuleCheck
