import RuleCheck.Proofs.Report
import RuleCheck.Proofs.Text.Numbered

/-!
# Proofs — Reports — line by line

A text of rules can be reported on in parts.  **If it is cut at a line feed, the reports on the
parts are the reports on it** (`Report.ofText_append_newline`): those on the first part as they are,
those on the second under numbers that count the lines of the first.  It does not matter whether the
first part is empty or ends with a line feed itself.

What ends the lines does not matter either: **a carriage return before each line feed changes no
report** (`Report.ofText_withReturns`).
-/

namespace RuleCheck.Report

open Text (lines LineAt withReturns withoutReturn)

/-- The report under a number that is `n` more. -/
def shift (n : Nat) (r : Report) : Report := { r with line := n + r.line }

/-- The reports on lines that are numbered from `n` on. -/
def ofLines (n : Nat) (ls : List Text) : List Report :=
  ((ls.zipIdx n).filter fun (l, _) => !isSkipped l).map fun (l, n) => of n l

theorem ofText_eq_ofLines (t : Text) : ofText t = ofLines 1 (lines t) := rfl

theorem ofLines_cons (n : Nat) (l : Text) (ls : List Text) :
    ofLines n (l :: ls) = ofLines n [l] ++ ofLines (n + 1) ls := by
  have hz : (l :: ls).zipIdx n = [l].zipIdx n ++ ls.zipIdx (n + 1) := rfl
  rw [ofLines, hz, List.filter_append, List.map_append]
  rfl

theorem ofLines_of_isSkipped (n : Nat) {l : Text} (h : isSkipped l) : ofLines n [l] = [] := by
  simp [ofLines, h]

/-- Lines that are numbered from another number on are reported on alike. -/
theorem ofLines_add (m n : Nat) (ls : List Text) :
    ofLines (m + n) ls = (ofLines n ls).map (shift m) := by
  induction ls generalizing n with
  | nil => rfl
  | cons l ls ih =>
      rw [ofLines_cons, ofLines_cons n, List.map_append, ← ih]
      congr 1
      cases hl : isSkipped l with
      | true => rw [ofLines_of_isSkipped _ hl, ofLines_of_isSkipped _ hl, List.map_nil]
      | false => simp [ofLines, hl, shift, of]

/-- The lines of a text that goes on behind a line feed, by induction on the lines before. -/
theorem ofLines_lines_append {a : Text} (n : Nat) (b : Text) (h : a.getLast? ≠ some '\r') :
    ofLines n (lines (a ++ '\n' :: b)) =
      ofLines n (lines a) ++ ofLines (n + (1 + a.count '\n')) (lines b) := by
  induction a using Text.line_induction generalizing n with
  | last a ha =>
      have hw : withoutReturn a = a := if_neg h
      rw [Text.lines_append_cons ha, hw, ofLines_cons, List.count_eq_zero.mpr ha]
      by_cases ne : a = []
      · -- an empty line is reported on no more than none
        subst ne
        rw [ofLines_of_isSkipped n (l := []) rfl]
        rfl
      · rw [Text.lines_of_notMem ha ne]
  | line l t hl ih =>
      have ht : t.getLast? ≠ some '\r' := by
        intro hr
        rw [List.getLast?_append, List.getLast?_cons, hr] at h
        exact h rfl
      have hc : n + 1 + (1 + t.count '\n') = n + (1 + (l ++ '\n' :: t).count '\n') := by
        rw [List.count_append, List.count_eq_zero.mpr hl, List.count_cons_self]
        omega
      rw [List.append_assoc, List.cons_append, Text.lines_append_cons hl, Text.lines_append_cons hl,
        ofLines_cons, ofLines_cons n _ (lines t), ih (n + 1) ht, List.append_assoc, hc]

theorem ofText_append {a : Text} (b : Text) (h : a.getLast? ≠ some '\r') :
    ofText (a ++ '\n' :: b) = ofText a ++ (ofText b).map (shift (1 + a.count '\n')) := by
  rw [ofText_eq_ofLines, ofLines_lines_append 1 b h, Nat.add_comm 1, ofLines_add]
  rfl

theorem pairwise_line_ofText (t : Text) : (ofText t).Pairwise fun r r' => r.line < r'.line := by
  have hz : (t.lines.zipIdx 1).Pairwise fun p q => p.2 < q.2 := by
    rw [← List.pairwise_map, List.zipIdx_map_snd]
    exact List.pairwise_lt_range'
  exact List.pairwise_map.mpr (hz.sublist List.filter_sublist)

/-- What is reported on is the lines that are not skipped, as they stand in the text. -/
theorem mem_ofText_iff_lineAt {t : Text} {r : Report} :
    r ∈ ofText t ↔ (∃ n, r.line = n + 1 ∧ LineAt t n r.expression) ∧
      isSkipped r.expression = false ∧ r = of r.line r.expression := by
  simp only [mem_ofText, List.mk_mem_zipIdx_iff_le_and_getElem?_sub, Text.getElem?_lines_iff]
  constructor
  · rintro ⟨n, l, ⟨hn, hl⟩, hs, rfl⟩
    exact ⟨⟨n - 1, (Nat.sub_add_cancel hn).symm, hl⟩, hs, rfl⟩
  · rintro ⟨⟨n, hn, hl⟩, hs, hv⟩
    exact ⟨n + 1, r.expression, ⟨Nat.le_add_left .., hl⟩, hs, hn ▸ hv⟩

/-- **Line feeds with and without carriage returns before them** give the same reports. -/
theorem ofText_withReturns {t : Text} (h : ¬ ['\r', '\n'] <:+: t) :
    ofText (withReturns t) = ofText t := by
  rw [ofText_eq_ofLines, Text.lines_withReturns h]
  rfl

/-- Carriage returns in a line, at the beginning of one and at the very end stay where they are. -/
theorem ofText_withReturns_stray :
    let t := "1\r ==\n\r$A\n# c\n.p\r".toList
    withReturns t = "1\r ==\r\n\r$A\r\n# c\r\n.p\r".toList ∧ ¬ ['\r', '\n'] <:+: t ∧
      ofText (withReturns t) = [of 1 "1\r ==".toList, of 2 "\r$A".toList, of 4 ".p\r".toList] := by
  intro t
  have h : ¬ ['\r', '\n'] <:+: t := by decide +kernel
  have ht : ofText t = [of 1 "1\r ==".toList, of 2 "\r$A".toList, of 4 ".p\r".toList] := by
    decide +kernel
  exact ⟨by decide, h, (ofText_withReturns h).trans ht⟩

end RuleCheck.Report
