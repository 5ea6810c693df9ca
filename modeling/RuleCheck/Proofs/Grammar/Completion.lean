import RuleCheck.Proofs.Grammar.Counting
import RuleCheck.Proofs.Grammar.Row

/-!
# Proofs — Grammar — completing a row

Whatever has been admitted can be made an expression, if no parenthesis was closed that had not been
opened: an item is completed where one is missing (`Slots.Ends`), and then the parentheses that are
open are closed (`isExpression_append`).

Where an item is complete nothing needs to come.  Behind a function its arguments must, and none are
enough.  Everywhere else a number may come (`Slots.exists_ends`).
-/

namespace RuleCheck

/-! ### Completing an item -/

/-- What may come first, or behind a kind that is no blank. -/
inductive Slots.Reached : Slots → Prop where
  | start : Reached .start
  | after (S : Slots) {k : Kind} (hb : k ≠ .blank) : Reached (S.after k)

/-- A row that completes an item where the set says what may come, and its spelling. -/
inductive Slots.Ends (S : Slots) : List Kind → Text → Prop where
  | nothing (h : .comma ∈ S) : Ends S [] []
  | number (h : .number ∈ S) : Ends S [.number] ['1']
  | call (h : .leftParen ∈ S) (hc : .call ∈ S) : Ends S [.leftParen, .rightParen] ['(', ')']

namespace Slots

theorem reached_afterRow {r : List Kind} (hb : .blank ∉ r) : Reached (start.afterRow r) := by
  rcases List.eq_nil_or_concat r with rfl | ⟨r, k, rfl⟩
  · exact .start
  · rw [List.concat_eq_append] at hb ⊢
    rw [afterRow_append]
    refine .after _ ?_
    rintro rfl
    exact hb (by simp)

/-- **An item can be completed everywhere.** -/
theorem exists_ends {S : Slots} (hS : Reached S) : ∃ r w, Ends S r w := by
  cases hS with
  | start => exact ⟨_, _, .number rfl⟩
  | @after S k hb =>
      cases k with
      | blank => contradiction
      | boolean | number | string | var | path | rightParen => exact ⟨_, _, .nothing rfl⟩
      | operator | comma | plus | minus => exact ⟨_, _, .number rfl⟩
      | function => exact ⟨_, _, .call rfl rfl⟩
      | leftParen =>
          refine ⟨_, _, .number ?_⟩
          rw [after_leftParen]
          split <;> rfl

namespace Ends

variable {S : Slots} {r : List Kind} {w : Text}

theorem admitsRow (h : Ends S r w) : S.AdmitsRow r := by
  cases h with
  | nothing => trivial
  | number h => exact ⟨(admits_iff_mem .number rfl rfl).mpr h, trivial⟩
  | call h hc =>
      refine ⟨(admits_iff_mem .leftParen rfl rfl).mpr h, ?_, trivial⟩
      rw [after_leftParen, if_pos hc]
      rfl

theorem closes (h : Ends S r w) (hS : Reached S) : Closes (S.afterRow r) := by
  cases h with
  | nothing h =>
      cases hS with
      | start => cases h
      | after S hb => exact ⟨h, S.rightParen_mem_after hb h⟩
  | number => exact S.closes_after (k := .number) rfl
  | call => exact (S.after .leftParen).closes_after (k := .rightParen) rfl

theorem level (h : Ends S r w) : Level r := by
  cases h with
  | nothing => exact .nil
  | number => exact .cons rfl .nil
  | call => exact .pair .nil .nil

theorem blank_notMem (h : Ends S r w) : .blank ∉ r := by
  cases h <;> simp

end Ends

end Slots

/-! ### Closing parentheses -/

/-- As many right parentheses in a row. -/
def closers (n : Nat) : List Kind := List.replicate n .rightParen

theorem blank_notMem_closers (n : Nat) : .blank ∉ closers n := by
  simp [closers, List.mem_replicate]

theorem Slots.Closes.closers {S : Slots} (h : Closes S) (n : Nat) :
    S.AdmitsRow (closers n) ∧ Closes (S.afterRow (closers n)) := by
  induction n generalizing S with
  | zero => exact ⟨trivial, h⟩
  | succ n ih =>
      obtain ⟨ha, hc⟩ := ih (S.closes_after (k := .rightParen) rfl)
      exact ⟨⟨h.admits_rightParen, ha⟩, hc⟩

theorem Nesting.foldl_after_closers (n : Nat) :
    ((closers n).foldl Nesting.after ⟨n, false⟩).balanced := by
  induction n with
  | zero => rfl
  | succ n ih =>
      have hn : (⟨(n + 1 : Nat), false⟩ : Nesting).leave = ⟨n, false⟩ := by
        simp [Nesting.leave]
      rw [← hn] at ih
      exact ih

/-- Where the depth was never negative, only what had been opened was closed. -/
theorem Nesting.exists_ofKinds_eq {r : List Kind} (h : ∀ a, a <+: r → 0 ≤ (ofKinds a).depth) :
    ∃ n : Nat, ofKinds r = ⟨n, false⟩ := by
  have hu : (ofKinds r).underflow = false := by
    refine eq_false_of_ne_true fun hu => ?_
    obtain ⟨a, ha, hd⟩ := underflow_ofKinds_iff_depth.mp hu
    exact Int.not_le.mpr hd (h a ha)
  obtain ⟨n, hn⟩ := Int.eq_ofNat_of_zero_le (h r (List.prefix_refl r))
  exact ⟨n, by rw [← hn, ← hu]⟩

/-- **What has been admitted can be completed**, by completing an item and closing the parentheses
that are open. -/
theorem isExpression_append {r e : List Kind} {w : Text} {n : Nat} (hb : .blank ∉ r)
    (ha : Slots.start.AdmitsRow r) (hn : Nesting.ofKinds r = ⟨n, false⟩)
    (he : (Slots.start.afterRow r).Ends e w) : IsExpression (r ++ (e ++ closers n)) := by
  obtain ⟨hac, hc⟩ := (he.closes (Slots.reached_afterRow hb)).closers n
  refine ⟨?_, ?_, ?_⟩
  · rw [Slots.admitsRow_append, Slots.admitsRow_append]
    exact ⟨ha, he.admitsRow, hac⟩
  · have hl : e.foldl Nesting.after ⟨n, false⟩ = ⟨n, false⟩ :=
      he.level.foldl_after (Int.natCast_nonneg n)
    rw [Nesting.ofKinds, List.foldl_append, List.foldl_append, ← Nesting.ofKinds, hn, hl]
    exact Nesting.foldl_after_closers n
  · have hb' : .blank ∉ r ++ (e ++ closers n) := by
      simp only [List.mem_append, not_or]
      exact ⟨hb, he.blank_notMem, blank_notMem_closers n⟩
    refine (Slots.comma_mem_afterRow_start hb').mp ?_
    rw [Slots.afterRow_append, Slots.afterRow_append]
    exact hc.comma_mem

end RuleCheck
