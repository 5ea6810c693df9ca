import RuleCheck.Proofs.Grammar.Admitted

/-!
# Proofs — Grammar — expressions joined and split

Where an item begins, the set that says what may come matters to the first kind only
(`Slots.Opens.admitsRow`).  So **two expressions are one with a comma or an operator between them**
(`IsExpression.join`), if that may come behind the first, and the second may begin behind it.

**At a comma in no parentheses an expression is two**, what comes before the comma
(`IsExpression.before_comma`) and what comes behind it (`IsExpression.behind_comma`).  The latter
must not begin with a path, which only a comma or the parenthesis of a call admits.
-/

namespace RuleCheck

/-- A row admitted where items begin is admitted wherever they do, if its first kind is. -/
theorem Slots.Opens.admitsRow {S T : Slots} {r : List Kind} (hS : S.Opens) (hT : T.Opens)
    (hb : .blank ∉ r) (ha : S.AdmitsRow r) (hh : ∀ k ∈ r.head?, T.admits k) : T.AdmitsRow r := by
  cases r with
  | nil => trivial
  | cons k r =>
      have hk : k ≠ .blank := by
        rintro rfl
        exact hb (List.mem_cons_self ..)
      refine ⟨hh k rfl, ?_⟩
      rw [Slots.after_eq_of_opens hT hk, ← Slots.after_eq_of_opens hS hk]
      exact ha.2

/-! ### What may come behind a separator -/

theorem Slots.admits_afterComma {k : Kind} (h : start.admits k) : afterComma.admits k := by
  revert h
  cases k <;> decide

theorem Slots.admits_afterOperator {k : Kind} (h : start.admits k) (hk : k ≠ .var) :
    afterOperator.admits k := by
  revert h hk
  cases k <;> decide

theorem Slots.admits_start {k : Kind} (h : afterComma.admits k) (hk : k ≠ .path) :
    start.admits k := by
  revert h hk
  cases k <;> decide

namespace IsExpression

theorem ne_nil {r : List Kind} (h : IsExpression r) : r ≠ [] := by
  rintro rfl
  cases h.2.2

theorem admits_head {r : List Kind} (h : IsExpression r) :
    ∀ k ∈ r.head?, Slots.start.admits k := by
  intro k hk
  obtain ⟨r, rfl⟩ := List.head?_eq_some_iff.mp hk
  exact h.1.1

/-! ### Joining -/

/-- **Two expressions joined** by a comma or an operator are an expression. -/
theorem join {a b : List Kind} {k : Kind} (ha : IsExpression a) (hb : IsExpression b)
    (hn : .blank ∉ b) (hk : k = .comma ∨ k = .operator)
    (hka : (Slots.start.afterRow a).admits k)
    (hkb : ∀ j ∈ b.head?, (Slots.start.after k).admits j) : IsExpression (a ++ k :: b) := by
  have hS : (Slots.start.after k).Opens ∧
      ((Slots.start.afterRow a).after k) = Slots.start.after k ∧ k.isParen = false := by
    rcases hk with rfl | rfl
    · exact ⟨Slots.opens_afterComma, rfl, rfl⟩
    · exact ⟨Slots.opens_afterOperator, rfl, rfl⟩
  obtain ⟨hS, hSa, hp⟩ := hS
  refine ⟨Slots.admitsRow_append.mpr ⟨ha.1, hka, ?_⟩, level_iff_balanced.mp ?_, ?_⟩
  · rw [hSa]
    exact Slots.opens_start.admitsRow hS hn hb.1 hkb
  · exact (level_iff_balanced.mpr ha.2.1).append (.cons hp (level_iff_balanced.mpr hb.2.1))
  · obtain ⟨j, hj⟩ : ∃ j, b.getLast? = some j := ⟨_, List.getLast?_eq_some_getLast hb.ne_nil⟩
    have hl := hb.2.2
    rw [hj] at hl
    rw [List.getLast?_append, List.getLast?_cons, hj]
    exact hl

/-- A comma joins any two expressions. -/
theorem join_comma {a b : List Kind} (ha : IsExpression a) (hb : IsExpression b)
    (hna : .blank ∉ a) (hnb : .blank ∉ b) : IsExpression (a ++ .comma :: b) := by
  refine ha.join hb hnb (.inl rfl) ?_ fun j hj => Slots.admits_afterComma (hb.admits_head j hj)
  exact (Slots.admits_iff_mem .comma rfl rfl).mpr ((Slots.comma_mem_afterRow_start hna).mpr ha.2.2)

/-- An operator joins an expression that ends with an operand to one that begins with no
variable. -/
theorem join_operator {a b : List Kind} (ha : IsExpression a) (hb : IsExpression b)
    (hnb : .blank ∉ b) (he : EndsOperand a) (hv : b.head? ≠ some .var) :
    IsExpression (a ++ .operator :: b) := by
  refine ha.join hb hnb (.inr rfl) (he.admits_operator _) fun j hj => ?_
  refine Slots.admits_afterOperator (hb.admits_head j hj) ?_
  rintro rfl
  exact hv hj

/-! ### Splitting -/

/-- Where no parenthesis is open in an expression, none was closed too early. -/
theorem nesting_eq_start {a b : List Kind} (h : IsExpression (a ++ b))
    (hd : (Nesting.ofKinds a).depth = 0) : Nesting.ofKinds a = .start := by
  cases hu : (Nesting.ofKinds a).underflow with
  | false => rw [Nesting.start, ← hd, ← hu]
  | true =>
      have hr := Nesting.underflow_foldl_after hu b
      have hbal := h.2.1
      rw [Nesting.ofKinds, List.foldl_append, Nesting.balanced, ← Nesting.ofKinds, hr] at hbal
      simp at hbal

variable {a b : List Kind} (h : IsExpression (a ++ .comma :: b))
  (hd : (Nesting.ofKinds a).depth = 0)
include h hd

/-- **Before a comma** in no parentheses there is an expression. -/
theorem before_comma (hb : .blank ∉ a) : IsExpression a := by
  obtain ⟨ha, hc, -⟩ := Slots.admitsRow_append.mp h.1
  refine ⟨ha, ?_, ?_⟩
  · rw [h.nesting_eq_start hd]
    rfl
  · exact (Slots.comma_mem_afterRow_start hb).mp ((Slots.admits_iff_mem .comma rfl rfl).mp hc)

/-- **Behind a comma** in no parentheses there is an expression, unless a path comes first. -/
theorem behind_comma (hb : .blank ∉ b) (hp : b.head? ≠ some .path) : IsExpression b := by
  obtain ⟨-, -, hr⟩ := Slots.admitsRow_append.mp h.1
  refine ⟨Slots.opens_afterComma.admitsRow Slots.opens_start hb hr fun k hk => ?_, ?_, ?_⟩
  · have hk' : Slots.afterComma.admits k := by
      obtain ⟨b, rfl⟩ := List.head?_eq_some_iff.mp hk
      exact hr.1
    refine Slots.admits_start hk' ?_
    rintro rfl
    exact hp hk
  · have hbal := h.2.1
    rwa [Nesting.ofKinds, List.foldl_append, ← Nesting.ofKinds, h.nesting_eq_start hd] at hbal
  · have hl := h.2.2
    rw [List.getLast?_append, List.getLast?_cons] at hl
    cases hj : b.getLast? with
    | none =>
        -- the comma would be the last kind
        rw [hj] at hl
        cases hl
    | some j =>
        rw [hj] at hl
        exact hl

end IsExpression

end RuleCheck
