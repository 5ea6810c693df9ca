import RuleCheck.Proofs.Scan.Completion
import RuleCheck.Proofs.Scan.Location

/-!
# Proofs — Scan — what messages take from the text

The only part of a message that comes from the text checked is the sequence of an escape that stands
for nothing.  Its characters are all in the text, and there is one of them, or a `u` and no more
than four (`sequence_of_check`).  So **a message holds a line feed only if such a sequence does**
(`Fault.newline_mem_message`), and then close to its end (`exists_message_eq_append`).
-/

namespace RuleCheck

theorem exists_read_of_badEscape {t s : Text} {c : Nat}
    (h : check t = .rejected ⟨c, .badEscape s⟩) :
    ∃ column offset, read (t.drop column) = .badEscape offset s := by
  obtain ⟨hs, ⟨-, hv⟩ | ⟨-, f, hf, hv⟩⟩ := Scan.steps_halt (s := .start t) rfl
  · rcases Scan.cause_of_finish (hv.symm.trans h) with hc | hc <;> cases hc
  · obtain rfl := Verdict.rejected.inj (hv.symm.trans h)
    obtain ⟨-, hr⟩ := Scan.foundFrom_of_next hf
    rw [hs.text_eq] at hr
    exact ⟨_, _, hr⟩

/-- **The sequence of a bad escape** is a short part of the text. -/
theorem sequence_of_check {t s : Text} {c : Nat} (h : check t = .rejected ⟨c, .badEscape s⟩) :
    s ⊆ t ∧ (s.length ≤ 1 ∨ ∃ u, s = 'u' :: u ∧ u.length ≤ 4) := by
  obtain ⟨column, offset, hr⟩ := exists_read_of_badEscape h
  obtain ⟨t', raw, ht, hb, hd⟩ := exists_decode_of_badEscape hr
  refine ⟨?_, Literal.sequence_of_decode hd⟩
  have hbehind := (escapeIn_of_read hr).behind
  exact List.Subset.trans hbehind.subset (List.drop_subset _ _)

theorem newline_notMem_decimal (n : Nat) : '\n' ∉ Text.decimal n := fun h =>
  absurd (Text.isDigit_of_mem_decimal h) (by decide)

theorem Kind.newline_notMem_label (k : Kind) : '\n' ∉ k.label := by
  cases k <;> decide

theorem Cause.reason_unexpected (k : Kind) :
    (unexpected k).reason = "unexpected ".toList ++ k.label := rfl

theorem Cause.reason_unknown (c : Char) : (unknown c).reason = "unknown character".toList := rfl

theorem Cause.reason_badEscape (s : Text) :
    (badEscape s).reason = "Illegal escape sequence: '\\".toList ++ s ++ ['\''] := rfl

/-- What every message begins with. -/
def messageHead : Text := "parse error at [column ".toList

theorem Fault.message_eq (f : Fault) :
    f.message = messageHead ++ (Text.decimal f.column ++ ("]: ".toList ++ f.cause.reason)) := by
  unfold message messageHead
  rw [List.append_assoc, List.append_assoc]

theorem Cause.newline_mem_reason {c : Cause} :
    '\n' ∈ c.reason ↔ ∃ s, c = .badEscape s ∧ '\n' ∈ s := by
  cases c with
  | badEscape s =>
      rw [reason_badEscape, List.mem_append, List.mem_append]
      constructor
      · rintro ((h | h) | h)
        · exact absurd h (by decide +kernel)
        · exact ⟨s, rfl, h⟩
        · exact absurd h (by decide)
      · rintro ⟨u, hu, h⟩
        obtain rfl := badEscape.inj hu
        exact .inl (.inr h)
  | unexpected k =>
      refine ⟨fun h => ?_, nofun⟩
      rw [reason_unexpected, List.mem_append] at h
      rcases h with h | h
      · exact absurd h (by decide +kernel)
      · exact absurd h k.newline_notMem_label
  | unknown c =>
      refine ⟨fun h => ?_, nofun⟩
      rw [reason_unknown] at h
      exact absurd h (by decide +kernel)
  | unbalanced => exact ⟨fun h => absurd h (by decide +kernel), nofun⟩
  | incomplete => exact ⟨fun h => absurd h (by decide +kernel), nofun⟩

/-- **A message holds a line feed** only in the sequence of a bad escape. -/
theorem Fault.newline_mem_message {f : Fault} :
    '\n' ∈ f.message ↔ ∃ s, f.cause = .badEscape s ∧ '\n' ∈ s := by
  rw [← Cause.newline_mem_reason, message_eq, List.mem_append, List.mem_append, List.mem_append]
  constructor
  · rintro (h | h | h | h)
    · exact absurd h (by decide +kernel)
    · exact absurd h (newline_notMem_decimal _)
    · exact absurd h (by decide)
    · exact h
  · exact fun h => .inr (.inr (.inr h))

/-- Of a message only the last five characters can be line feeds. -/
theorem exists_message_eq_append {t : Text} {f : Fault} (h : check t = .rejected f) :
    ∃ x y, f.message = messageHead ++ x ++ y ∧ '\n' ∉ x ∧ y.length ≤ 5 := by
  by_cases hn : '\n' ∈ f.message
  · obtain ⟨n, c⟩ := f
    obtain ⟨s, rfl, -⟩ := Fault.newline_mem_message.mp hn
    have hsplit : ∃ x y, s = x ++ y ∧ '\n' ∉ x ∧ y.length ≤ 4 := by
      obtain ⟨-, hl | ⟨u, rfl, hl⟩⟩ := sequence_of_check h
      · exact ⟨[], s, rfl, List.not_mem_nil, Nat.le_trans hl (by decide)⟩
      · exact ⟨['u'], u, rfl, by decide, hl⟩
    obtain ⟨x, y, rfl, hx, hy⟩ := hsplit
    refine ⟨Text.decimal n ++ ("]: ".toList ++ ("Illegal escape sequence: '\\".toList ++ x)),
      y ++ ['\''], ?_, ?_, ?_⟩
    · rw [Fault.message_eq, Cause.reason_badEscape]
      simp only [List.append_assoc]
    · rw [List.mem_append, List.mem_append, List.mem_append, not_or, not_or, not_or]
      exact ⟨newline_notMem_decimal n, by decide, by decide +kernel, hx⟩
    · rw [List.length_append]
      exact Nat.succ_le_succ hy
  · refine ⟨Text.decimal f.column ++ ("]: ".toList ++ f.cause.reason), [], ?_, fun hm => hn ?_,
      Nat.zero_le 5⟩
    · rw [Fault.message_eq, List.append_nil]
    · rw [Fault.message_eq]
      exact List.mem_append_right _ hm

end RuleCheck
