import RuleCheck.Proofs.Lexeme.Escape
import RuleCheck.Proofs.Scan.Language

/-!
# Proofs — Scan — where faults are

**What a fault says of a text is true** (`fault_holds`).  Where no lexeme begins, the character
named is there and no form finds anything; a lexeme of the kind named is there, and may not come;
the backslash of an escape is inside the literal that the step has come to, with the characters
named behind it, and there are some.  What only the end shows is at the end, and the lexemes
accepted make up the whole text.
-/

namespace RuleCheck

/-! ### Readings that find no lexeme -/

theorem Form.read_eq_nothing_of_readFirst {fs : List Form} {t : Text}
    (h : readFirst fs t = .nothing) : ∀ f ∈ fs, f.read t = .nothing := by
  induction fs with
  | nil => nofun
  | cons f fs ih =>
      rw [readFirst] at h
      split at h
      · rename_i hf
        exact List.forall_mem_cons.mpr ⟨hf, ih h⟩
      · contradiction

/-- Where nothing stands no form finds anything. -/
theorem form_read_eq_nothing {t : Text} (h : read t = .nothing) (f : Form) : f.read t = .nothing :=
  Form.read_eq_nothing_of_readFirst h f f.mem_precedence

/-- Where an escape stands for nothing, decoding the body of the literal at the beginning stops. -/
theorem exists_decode_of_badEscape {t sequence : Text} {offset : Nat}
    (h : read t = .badEscape offset sequence) :
    ∃ t' raw, t = '\'' :: t' ∧ Literal.body? t' = some raw ∧
      Literal.decode 1 raw = .error ⟨offset, sequence⟩ := by
  have hf := string_read_of_badEscape h
  simp only [Form.read, Form.readString.eq_def] at hf
  split at hf
  · split at hf
    · cases hf
    · rename_i raw hraw
      split at hf <;> cases hf
      rename_i hd
      exact ⟨_, raw, rfl, hraw, hd⟩
  · cases hf

/-- An escape that stands for nothing is one in the body of the literal at the beginning. -/
theorem exists_body_of_badEscape {t sequence : Text} {offset : Nat}
    (h : read t = .badEscape offset sequence) :
    ∃ t' raw, t = '\'' :: t' ∧ Literal.body? t' = some raw ∧
      Literal.HasBadEscape 1 raw ⟨offset, sequence⟩ := by
  obtain ⟨t', raw, ht, hb, hd⟩ := exists_decode_of_badEscape h
  exact ⟨t', raw, ht, hb, Literal.hasBadEscape_of_decode hd⟩

/-! ### What a fault says -/

/-- A backslash inside of a literal and the characters that are named behind it. -/
structure EscapeIn (t : Text) (opening column : Nat) (sequence : Text) : Prop where
  quote : t[opening]? = some '\''
  /-- The column is behind the opening quote and before the closing one. -/
  inside : ∃ raw, Literal.body? (t.drop (opening + 1)) = some raw ∧
    opening < column ∧ column < opening + 1 + raw.length
  backslash : t[column]? = some '\\'
  ne_nil : sequence ≠ []
  length_le : sequence.length ≤ 5
  behind : sequence <+: t.drop (column + 1)

/-- What a fault says of a text in which the lexemes of a row come before it. -/
def Fault.Holds (f : Fault) (t : Text) (r : List Lexeme) : Prop :=
  match f.cause with
  | .unknown c =>
      f.column = totalWidth r ∧ t[f.column]? = some c ∧
        ∀ g : Form, g.read (t.drop f.column) = .nothing
  | .unexpected k =>
      f.column = totalWidth r ∧ f.column < t.length ∧
        (∃ l, read (t.drop f.column) = .lexeme l ∧ l.kind = k) ∧ k ≠ .blank ∧
        (Slots.start.afterRow (kinds r)).admits k = false
  | .badEscape sequence => EscapeIn t (totalWidth r) f.column sequence
  | .unbalanced =>
      f.column = t.length ∧ totalWidth r = t.length ∧
        (Nesting.ofKinds (kinds r)).balanced = false
  | .incomplete =>
      f.column = t.length ∧ totalWidth r = t.length ∧ (Nesting.ofKinds (kinds r)).balanced ∧
        (kinds r).getLast?.any Kind.mayEnd = false

theorem escapeIn_of_read {t sequence : Text} {column offset : Nat}
    (h : read (t.drop column) = .badEscape offset sequence) :
    EscapeIn t column (column + offset) sequence := by
  obtain ⟨t', raw, ht, hb, he⟩ := exists_body_of_badEscape h
  have hne := Literal.ne_nil_of_hasBadEscape hb he
  obtain ⟨r, rfl, -⟩ := Literal.bodyFrom_eq_some hb
  have hdrop : ∀ n, t.drop (column + n) = ('\'' :: (raw ++ '\'' :: r)).drop n := by
    intro n
    rw [← ht, List.drop_drop]
  have hget : ∀ n, t[column + n]? = ('\'' :: (raw ++ '\'' :: r))[n]? := by
    intro n
    rw [← ht, List.getElem?_drop]
  cases he with
  | intro x _ y hl _ =>
      refine ⟨hget 0, ⟨_, (congrArg _ (hdrop 1)).trans hb, ?_, ?_⟩, ?_, hne, hl, ?_⟩
      · omega
      · simp only [List.length_append, List.length_cons]
        omega
      · rw [hget]
        simp [Nat.add_comm 1]
      · rw [Nat.add_assoc, hdrop]
        simp [Nat.add_comm 1]

namespace Scan

variable {t : Text} {s : Scan} {r : List Lexeme}

theorem Steps.column_eq_totalWidth (h : Steps (start t) r s) : s.place.column = totalWidth r :=
  h.column_eq.trans (Nat.zero_add _)

theorem Steps.ahead_eq_drop (h : Steps (start t) r s) : s.place.ahead = t.drop (totalWidth r) := by
  rw [Place.ahead_eq_drop, h.text_eq, h.column_eq_totalWidth]
  rfl

/-- What a step that fails says is true. -/
theorem Steps.holds_of_next {f : Fault} (h : Steps (start t) r s) (ne : s.place.ahead ≠ [])
    (hf : s.next = .error f) : f.Holds t r := by
  have ha := h.ahead_eq_drop
  rw [next, ha, h.column_eq_totalWidth] at hf
  rw [ha] at ne
  split at hf
  · rename_i hr
    cases hf
    refine ⟨rfl, ?_, form_read_eq_nothing hr⟩
    obtain ⟨c, u, hc⟩ := List.exists_cons_of_ne_nil ne
    rw [← List.head?_drop, hc]
    rfl
  · rename_i hr
    cases hf
    exact escapeIn_of_read hr
  · rename_i l hr
    split at hf <;> cases hf
    rename_i hl
    have hadm : (Slots.start.afterRow (kinds r)).admits l.kind = false := by
      rw [Progress.admits, h.progress_eq, ← Progress.afterRow_kinds, Progress.slots_afterRow] at hl
      exact eq_false_of_ne_true hl
    refine ⟨rfl, ?_, ⟨l, hr, rfl⟩, ?_, hadm⟩
    · have hlt := List.length_pos_iff.mpr ne
      rw [List.length_drop] at hlt
      exact Nat.lt_of_sub_pos hlt
    · intro hb
      rw [hb, Slots.admits_blank] at hadm
      cases hadm

/-- What is found missing at the end is missing. -/
theorem Steps.holds_of_finish {f : Fault} (h : Steps (start t) r s) (he : s.place.ahead = [])
    (hf : s.finish = .rejected f) : f.Holds t r := by
  have hsize : s.place.size = t.length := congrArg List.length h.text_eq
  have hw : totalWidth r = t.length := by
    rw [← h.column_eq_totalWidth, ← hsize, Place.size_eq, he]
    rfl
  rw [finish, h.progress_eq, ← Progress.afterRow_kinds, hsize, start,
    Progress.missing?_afterRow_start_eq fun k hk => ne_blank_of_mem_kinds hk] at hf
  by_cases hbal : (Nesting.ofKinds (kinds r)).balanced
  · by_cases hend : (kinds r).getLast?.any Kind.mayEnd
    · simp [hbal, hend] at hf
    · simp only [hbal, hend, Bool.not_true, if_false, Bool.false_eq_true] at hf
      cases hf
      exact ⟨rfl, hw, hbal, by simpa using hend⟩
  · simp only [hbal, Bool.not_false, if_true] at hf
    cases hf
    exact ⟨rfl, hw, by simpa using hbal⟩

end Scan

/-- **What a fault says is true** of the text, behind the lexemes that were accepted. -/
theorem fault_holds {t : Text} {f : Fault} (h : check t = .rejected f) :
    let r := (Scan.start t).run.accepted.map Acceptance.lexeme
    Lexes t r (t.drop (totalWidth r)) ∧ Slots.start.AdmitsRow (kinds r) ∧ f.Holds t r := by
  intro r
  obtain ⟨hs, hv⟩ := Scan.steps_halt (s := .start t) rfl
  refine ⟨hs.ahead_eq_drop ▸ hs.lexes, Slots.admitsRow_kinds.mpr hs.admitsRow, ?_⟩
  rcases hv with ⟨he, hv⟩ | ⟨ne, g, hg, hv⟩
  · exact hs.holds_of_finish he (hv.symm.trans h)
  · obtain rfl : g = f := Verdict.rejected.inj (hv.symm.trans h)
    exact hs.holds_of_next ne hg

/-- An escape that the end of its literal cuts short. -/
theorem fault_holds_short_escape :
    check "f('a\\u12', 1)".toList = .rejected ⟨4, .badEscape "u12".toList⟩ ∧
      (Scan.start "f('a\\u12', 1)".toList).run.accepted.map Acceptance.lexeme =
        [⟨.function ['f'], 1⟩, ⟨.leftParen, 1⟩] ∧
      EscapeIn "f('a\\u12', 1)".toList 2 4 "u12".toList := by
  have h : check "f('a\\u12', 1)".toList = .rejected ⟨4, .badEscape "u12".toList⟩ := by
    decide +kernel
  have hr : (Scan.start "f('a\\u12', 1)".toList).run.accepted.map Acceptance.lexeme =
      [⟨.function ['f'], 1⟩, ⟨.leftParen, 1⟩] := by decide +kernel
  obtain ⟨-, -, hf⟩ := fault_holds h
  rw [hr] at hf
  exact ⟨h, hr, hf⟩

end RuleCheck
