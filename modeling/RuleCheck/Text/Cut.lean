import RuleCheck.Text.Basic

/-!
# Text — cutting at a mark

A text is cut at the first occurrence of a mark: every other one comes later (`prefix_of_cut?`), and
where the mark's first character does not come earlier the cut is there (`cut?_append`).
-/

namespace RuleCheck.Text

/-- The text before the first occurrence of a mark, and the text behind it. -/
def cut? (mark : Text) : Text → Option (Text × Text)
  | []     => if mark = [] then some ([], []) else none
  | c :: t =>
      if mark.isPrefixOf (c :: t) then some ([], (c :: t).drop mark.length)
      else (cut? mark t).map fun (a, b) => (c :: a, b)

/-- Wherever the mark stands in a text, what is before the cut stands before it. -/
theorem prefix_of_cut? {mark a b x y : Text} (h : cut? mark (x ++ mark ++ y) = some (a, b)) :
    a <+: x := by
  induction x generalizing a with
  | nil =>
      -- The mark stands at the very front, so nothing is before the cut.
      have hp : mark <+: [] ++ mark ++ y := List.prefix_append mark y
      cases ht : [] ++ mark ++ y with
      | nil => simp_all [cut?]
      | cons c t =>
          rw [ht] at h hp
          simp_all [cut?]
  | cons c x ih =>
      simp only [List.cons_append, cut?] at h
      split at h
      · cases h
        exact List.nil_prefix
      · obtain ⟨⟨a', b'⟩, hc, he⟩ := Option.map_eq_some_iff.mp h
        cases he
        exact List.prefix_cons_inj c |>.mpr (ih hc)

/-- A text is cut where the mark begins with a character that does not occur before. -/
theorem cut?_append {c : Char} {mark a b : Text} (h : c ∉ a) :
    cut? (c :: mark) (a ++ (c :: mark) ++ b) = some (a, b) := by
  induction a with
  | nil => simp [cut?, List.isPrefixOf_iff_prefix]
  | cons d a ih =>
      simp only [List.mem_cons, not_or] at h
      have hr := ih h.2
      simp only [List.append_assoc, List.cons_append] at hr
      simp [cut?, h.1, hr]

end RuleCheck.Text
