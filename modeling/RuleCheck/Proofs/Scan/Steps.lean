import RuleCheck.Proofs.Grammar.Row
import RuleCheck.Proofs.Lexeme.Row
import RuleCheck.Scan.Run

/-!
# Proofs — Scan — rows of steps

`Steps s r s'` says that steps which accept the lexemes of the row `r` lead from the scan `s` to
`s'`.  Such steps are there exactly if the lexemes lie ahead and each of their kinds may come where
it does (`Steps.lexes`, `Steps.admitsRow`, `exists_steps`), and then the progress at their end is
the progress along the kinds (`Steps.progress_eq`).

**A run is a row of steps** (`steps_halt`).  It ends at `halt`, at the end of the text or where no
step succeeds, and its verdict is the one found there, which is the verdict of the run from any of
the scans between (`Steps.verdict_run_eq`).
-/

namespace RuleCheck

theorem Slots.admitsRow_kinds {S : Slots} {r : List Lexeme} :
    S.AdmitsRow (kinds r) ↔ S.AdmitsRow (r.map Lexeme.kind) := by
  rw [kinds_eq_filter, admitsRow_filter]

theorem Progress.afterRow_kinds (p : Progress) (r : List Lexeme) :
    p.afterRow (kinds r) = p.afterRow (r.map Lexeme.kind) := by
  rw [kinds_eq_filter, afterRow_filter]

namespace Scan

inductive Steps : Scan → List Lexeme → Scan → Prop where
  | refl (s : Scan) : Steps s [] s
  | more {s s' : Scan} {l : Lexeme} {r : List Lexeme} (h : s.next = .ok l)
      (t : Steps (s.accept l) r s') : Steps s (l :: r) s'

/-- The scan behind all lexemes that a run accepts. -/
def halt (s : Scan) : Scan := s.run.accepted.foldl (fun s a => s.accept a.lexeme) s

theorem next_eq_ok_iff {s : Scan} {l : Lexeme} :
    s.next = .ok l ↔ read s.place.ahead = .lexeme l ∧ s.progress.admits l.kind := by
  constructor
  · intro h
    exact ⟨read_of_next h, admits_of_next h⟩
  · rintro ⟨hr, ha⟩
    simp [next, hr, ha]

theorem column_accept {s : Scan} {l : Lexeme} (h : read s.place.ahead = .lexeme l) :
    (s.accept l).place.column = s.place.column + l.width := by
  have := width_le_length h
  have := Place.size_eq s.place
  rw [place_accept, Place.column_advance]
  omega

namespace Steps

theorem text_eq {s s' : Scan} {r : List Lexeme} (h : Steps s r s') :
    s'.place.text = s.place.text := by
  induction h with
  | refl => rfl
  | more _ _ ih => exact ih.trans (Place.text_advance _ _)

theorem lexes {s s' : Scan} {r : List Lexeme} (h : Steps s r s') :
    Lexes s.place.ahead r s'.place.ahead := by
  induction h with
  | refl s => exact .nil _
  | more h _ ih => exact .cons (read_of_next h) ih

theorem column_eq {s s' : Scan} {r : List Lexeme} (h : Steps s r s') :
    s'.place.column = s.place.column + totalWidth r := by
  induction h with
  | refl => rfl
  | @more s s' l r h _ ih =>
      rw [ih, column_accept (read_of_next h), totalWidth, Nat.add_assoc]

/-- There are no more steps than characters that they take. -/
theorem length_le {s s' : Scan} {r : List Lexeme} (h : Steps s r s') :
    r.length ≤ totalWidth r := by
  induction h with
  | refl => exact Nat.le_refl 0
  | @more s s' l r h _ ih =>
      have hl : 0 < l.width := width_pos (read_of_next h)
      simp only [List.length_cons, totalWidth]
      omega

theorem admitsRow {s s' : Scan} {r : List Lexeme} (h : Steps s r s') :
    s.progress.slots.AdmitsRow (r.map Lexeme.kind) := by
  induction h with
  | refl => trivial
  | more h _ ih => exact ⟨admits_of_next h, by simpa using ih⟩

theorem progress_eq {s s' : Scan} {r : List Lexeme} (h : Steps s r s') :
    s'.progress = s.progress.afterRow (r.map Lexeme.kind) := by
  induction h with
  | refl => rfl
  | more _ _ ih => exact ih

/-- Steps report nothing. -/
theorem reported_eq {s s' : Scan} {r : List Lexeme} (h : Steps s r s') :
    s'.reported = s.reported := by
  induction h with
  | refl => rfl
  | more _ _ ih => exact ih

end Steps

/-- Lexemes that lie ahead and may come where they do are accepted. -/
theorem exists_steps {s : Scan} {r : List Lexeme} {t t' : Text} (h : Lexes t r t')
    (ht : s.place.ahead = t) (ha : s.progress.slots.AdmitsRow (r.map Lexeme.kind)) :
    ∃ s', Steps s r s' ∧ s'.place.ahead = t' := by
  induction h generalizing s with
  | nil => exact ⟨s, .refl s, ht⟩
  | @cons t t' l r h _ ih =>
      have hn : s.next = .ok l := next_eq_ok_iff.mpr ⟨ht ▸ h, ha.1⟩
      have ht₁ : (s.accept l).place.ahead = t.drop l.width := by simp [ht]
      obtain ⟨s', hs, ht'⟩ := ih ht₁ (by simpa using ha.2)
      exact ⟨s', .more hn hs, ht'⟩

theorem halt_of_end {s : Scan} (hv : s.reported = .accepted) (h : s.place.ahead = []) :
    s.halt = s := by
  rw [halt, run_of_end hv h]
  rfl

theorem halt_of_error {s : Scan} {f : Fault} (hv : s.reported = .accepted)
    (ne : s.place.ahead ≠ []) (h : s.next = .error f) : s.halt = s := by
  rw [halt, run_of_error hv ne h]
  rfl

theorem halt_of_ok {s : Scan} {l : Lexeme} (hv : s.reported = .accepted) (h : s.next = .ok l) :
    s.halt = (s.accept l).halt := by
  rw [halt, run_of_ok hv h]
  rfl

/-- **A run is a row of steps**, and it ends where its verdict is found. -/
theorem steps_halt {s : Scan} (hv : s.reported = .accepted) :
    Steps s (s.run.accepted.map Acceptance.lexeme) s.halt ∧
      (s.halt.place.ahead = [] ∧ s.run.verdict = s.halt.finish ∨
        s.halt.place.ahead ≠ [] ∧ ∃ f, s.halt.next = .error f ∧ s.run.verdict = .rejected f) := by
  induction s, hv using run_induction with
  | stop s hv hs =>
      rw [halt_of_end hv hs, run_of_end hv hs]
      exact ⟨.refl s, .inl ⟨hs, rfl⟩⟩
  | fail s hv f hs hf =>
      rw [halt_of_error hv hs hf, run_of_error hv hs hf]
      exact ⟨.refl s, .inr ⟨hs, f, hf, rfl⟩⟩
  | goOn s hv l hl ih =>
      rw [halt_of_ok hv hl, run_of_ok hv hl]
      exact ⟨.more hl ih.1, ih.2⟩

/-- Steps lead from a scan to one with the same verdict. -/
theorem Steps.verdict_run_eq {s s' : Scan} {r : List Lexeme} (h : Steps s r s')
    (hv : s.reported = .accepted) : s.run.verdict = s'.run.verdict := by
  induction h with
  | refl => rfl
  | more h _ ih =>
      rw [run_of_ok hv h]
      exact ih hv

/-- Steps lead from the start of a text to scans with the verdict on the text. -/
theorem Steps.check_eq {t : Text} {s : Scan} {r : List Lexeme} (h : Steps (start t) r s) :
    check t = s.run.verdict := h.verdict_run_eq rfl

end Scan

end RuleCheck
