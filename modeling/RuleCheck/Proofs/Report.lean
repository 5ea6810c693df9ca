import RuleCheck.Report
import RuleCheck.Proofs.Text.Line

/-!
# Proofs — Reports

The parts of a report say the same: it is valid if the expression is accepted, and exactly then it
has no column and no message (`Report.valid_of`, `Report.column_of`, `Report.message_of`).

What is reported on: each expression of a list under its number, and of a text of rules each line
that is not skipped (`Report.mem_ofExpressions`, `Report.mem_ofText`).  The reports on a text whose
lines are a list of expressions, none of them skipped, are those on the list
(`Report.ofText_eq_ofExpressions`).
-/

namespace RuleCheck.Report

section
variable {n : Nat} {e : Text} {f : Fault}

theorem of_accepted (h : check e = .accepted) : of n e = ⟨n, e, true, none, none⟩ := by
  rw [of_eq, h]

theorem of_rejected (h : check e = .rejected f) :
    of n e = ⟨n, e, false, some f.column, some f.message⟩ := by
  rw [of_eq, h]

theorem valid_of : (of n e).valid ↔ check e = .accepted := by
  rw [of_eq]
  cases check e <;> simp

theorem column_of : (of n e).column = none ↔ (of n e).valid := by
  rw [of_eq]
  cases check e <;> simp

theorem message_of : (of n e).message = none ↔ (of n e).valid := by
  rw [of_eq]
  cases check e <;> simp

end

theorem mem_ofExpressions {es : List Text} {r : Report} :
    r ∈ ofExpressions es ↔ ∃ n e, (e, n) ∈ es.zipIdx 1 ∧ r = of n e := by
  rw [ofExpressions, List.mem_map]
  constructor
  · rintro ⟨⟨e, n⟩, hn, rfl⟩
    exact ⟨n, e, hn, rfl⟩
  · rintro ⟨n, e, hn, rfl⟩
    exact ⟨(e, n), hn, rfl⟩

theorem mem_ofText {t : Text} {r : Report} :
    r ∈ ofText t ↔ ∃ n l, (l, n) ∈ t.lines.zipIdx 1 ∧ isSkipped l = false ∧ r = of n l := by
  rw [ofText, List.mem_map]
  constructor
  · rintro ⟨⟨l, n⟩, hp, rfl⟩
    obtain ⟨hn, hs⟩ := List.mem_filter.mp hp
    exact ⟨n, l, hn, by simpa using hs, rfl⟩
  · rintro ⟨n, l, hn, hs, rfl⟩
    exact ⟨(l, n), List.mem_filter.mpr ⟨hn, by simp [hs]⟩, rfl⟩

theorem exists_mem_zipIdx {ts : List Text} {t : Text} (h : t ∈ ts) : ∃ n, (t, n) ∈ ts.zipIdx 1 := by
  rw [← List.zipIdx_map_fst 1 ts] at h
  obtain ⟨⟨_, n⟩, hn, rfl⟩ := List.mem_map.mp h
  exact ⟨n, hn⟩

theorem all_valid_ofExpressions {es : List Text} :
    (ofExpressions es).all valid ↔ ∀ e ∈ es, check e = .accepted := by
  rw [List.all_eq_true]
  constructor
  · intro h e he
    obtain ⟨n, hn⟩ := exists_mem_zipIdx he
    exact valid_of.mp (h _ (mem_ofExpressions.mpr ⟨n, e, hn, rfl⟩))
  · rintro h _ hr
    obtain ⟨n, e, hn, rfl⟩ := mem_ofExpressions.mp hr
    exact valid_of.mpr (h e (List.fst_mem_of_mem_zipIdx hn))

theorem all_valid_ofText {t : Text} :
    (ofText t).all valid ↔ ∀ l ∈ t.lines, isSkipped l = false → check l = .accepted := by
  rw [List.all_eq_true]
  constructor
  · intro h l hl hs
    obtain ⟨n, hn⟩ := exists_mem_zipIdx hl
    exact valid_of.mp (h _ (mem_ofText.mpr ⟨n, l, hn, hs, rfl⟩))
  · rintro h _ hr
    obtain ⟨n, l, hn, hs, rfl⟩ := mem_ofText.mp hr
    exact valid_of.mpr (h l (List.fst_mem_of_mem_zipIdx hn) hs)

/-- **Lines and expressions are reported on alike.** -/
theorem ofText_eq_ofExpressions {t : Text} (h : ∀ l ∈ t.lines, isSkipped l = false) :
    ofText t = ofExpressions t.lines := by
  rw [ofText, ofExpressions, List.filter_eq_self.mpr]
  intro p hp
  simp [h p.1 (List.fst_mem_of_mem_zipIdx hp)]

end RuleCheck.Report
