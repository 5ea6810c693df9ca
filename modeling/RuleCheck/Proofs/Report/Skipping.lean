import RuleCheck.Proofs.Report
import RuleCheck.Proofs.Scan.Translation
import RuleCheck.Proofs.Text.Span

/-!
# Proofs — Reports — skipped lines

A line is skipped that is all white space, or whose first other character is `#`.  More characters
are white space than those that a scan passes as blanks.

**No line that is skipped is an expression** (`check_of_isSkipped`).  The scan passes the blanks,
and where a `#` comes, or white space that is no blank, no lexeme begins; if nothing comes, no
lexeme has come.  So the reports on all lines, none of them skipped, are those on the text and some
more, of which none is valid (`Report.skipped_fails`).
-/

namespace RuleCheck

open Text (isSpace)

/-! ### Where no lexeme begins -/

theorem toNat_of_isSpace {c : Char} (h : isSpace c) : c.toNat ≤ 0x20 ∨ 0x85 ≤ c.toNat := by
  obtain ⟨⟨low, high⟩, hp, hc⟩ := List.any_eq_true.mp h
  have hr : ∀ p ∈ Text.spaceRanges, p.2 ≤ 0x20 ∨ 0x85 ≤ p.1 := by decide
  have := hr _ hp
  simp only [Bool.and_eq_true, decide_eq_true_eq] at hc
  omega

/-- White space begins no lexeme but a blank. -/
theorem not_mayBegin_of_isSpace {c : Char} (h : isSpace c) (hb : ¬ c.isWhitespace) (f : Form) :
    ¬ f.mayBegin c := by
  intro hf
  have := toNat_of_isSpace h
  have := Form.toNat_of_mayBegin hf hb
  omega

theorem not_mayBegin_hash (f : Form) : ¬ f.mayBegin '#' := by
  cases f <;> decide

/-- Behind the blanks of a line that is skipped no lexeme begins. -/
theorem not_mayBegin_of_isSkipped {w r : Text} {c : Char} (h : isSkipped (w ++ c :: r))
    (hw : ∀ d ∈ w, d.isWhitespace) (hc : ¬ c.isWhitespace) (f : Form) : ¬ f.mayBegin c := by
  by_cases hs : isSpace c
  · exact not_mayBegin_of_isSpace hs hc f
  · have hd : (w ++ c :: r).dropWhile isSpace = c :: r :=
      dropWhile_append_of_stop (fun d hd => Text.isSpace_of_isWhitespace (hw d hd))
        (by simpa using hs)
    rw [isSkipped, hd] at h
    obtain rfl : c = '#' := by simpa using h
    exact not_mayBegin_hash f

/-! ### The verdict on a line that is skipped -/

/-- The fault of a text in which nothing is read but the blanks at its beginning. -/
def Fault.behindBlanks (t : Text) : Fault :=
  match t.dropWhile Char.isWhitespace with
  | []     => ⟨t.length, .incomplete⟩
  | c :: _ => ⟨(t.takeWhile Char.isWhitespace).length, .unknown c⟩

/-- **What is skipped is no expression.** -/
theorem check_of_isSkipped {l : Text} (h : isSkipped l) :
    check l = .rejected (.behindBlanks l) := by
  obtain ⟨r, hl, hw, hr⟩ := exists_run Char.isWhitespace l
  generalize hg : l.takeWhile Char.isWhitespace = w at hl hw
  subst hl
  rw [Fault.behindBlanks, dropWhile_append_of_stop hw hr, hg]
  cases r with
  | nil =>
      have hs : check (w ++ []) = (check []).shift w.length := check_append_blanks hw (by simp)
      have hc : check [] = .rejected ⟨0, .incomplete⟩ := check_of_admitsRow (.nil []) trivial
      rw [hs, hc, List.append_nil]
      rfl
  | cons c r =>
      have hn : ∀ f : Form, ¬ f.mayBegin c := not_mayBegin_of_isSkipped h hw (hr c rfl)
      -- no word comes behind the blanks, so a space among them begins no operator
      have hword : ¬ Form.isWordChar c := fun hword => by
        obtain ⟨f, hf⟩ := Form.exists_mayBegin_of_isWordChar hword
        exact hn f hf
      have hs : check (w ++ c :: r) = (check (c :: r)).shift w.length :=
        check_append_blanks hw (by simpa using fun _ => hword)
      have hc : check (c :: r) = .rejected ⟨0, .unknown c⟩ :=
        check_of_nothing (.nil _) trivial (read_eq_nothing hn r)
      rw [hs, hc]
      rfl

namespace Report

theorem ofText_eq_filter (t : Text) :
    ofText t = (ofExpressions t.lines).filter fun r => !isSkipped r.expression := by
  rw [ofText, ofExpressions, List.filter_map]
  rfl

/-- What a skipped line would be reported as fails. -/
theorem filter_valid_ofExpressions (t : Text) :
    (ofExpressions t.lines).filter valid = (ofText t).filter valid := by
  rw [ofText_eq_filter, List.filter_filter]
  refine List.filter_congr fun r hr => ?_
  obtain ⟨n, l, -, rfl⟩ := mem_ofExpressions.mp hr
  cases hs : isSkipped l with
  | false => simp [of, hs]
  | true => simp [of_rejected (check_of_isSkipped hs)]

/-- **Skipping hides nothing valid**: what is skipped would be rejected, so where all lines are
accepted none is skipped, and if none were skipped only failing reports would be added. -/
theorem skipped_fails :
    (∀ l : Text, isSkipped l → check l = .rejected (.behindBlanks l)) ∧
      ∀ t : Text, ((∀ l ∈ t.lines, check l = .accepted) → ∀ l ∈ t.lines, isSkipped l = false) ∧
        (ofText t).Sublist (ofExpressions t.lines) ∧
        (ofExpressions t.lines).filter valid = (ofText t).filter valid := by
  refine ⟨fun _ => check_of_isSkipped, fun t => ⟨fun h l hl => ?_, ?_, ?_⟩⟩
  · refine eq_false_of_ne_true fun hs => ?_
    have := (check_of_isSkipped hs).symm.trans (h l hl)
    cases this
  · rw [ofText_eq_filter]
    exact List.filter_sublist
  · exact filter_valid_ofExpressions t

/-- A comment behind white space that no scan passes, a line of blanks, and two rules. -/
theorem skipped_fails_no_break_space :
    let l := "\t \u00a0# 1".toList
    let t : Text := "1\r\n\t$A".toList
    isSkipped l ∧ check l = .rejected ⟨2, .unknown '\u00a0'⟩ ∧
      isSkipped " \r".toList ∧ check " \r".toList = .rejected ⟨2, .incomplete⟩ ∧
      (∀ l ∈ t.lines, check l = .accepted) ∧ ∀ l ∈ t.lines, isSkipped l = false := by
  intro l t
  have hl : isSkipped l := by decide
  have hb : isSkipped " \r".toList := by decide
  have ht : ∀ l ∈ t.lines, check l = .accepted := by decide +kernel
  exact ⟨hl, skipped_fails.1 l hl, hb, skipped_fails.1 _ hb, ht, (skipped_fails.2 t).1 ht⟩

end Report

end RuleCheck
