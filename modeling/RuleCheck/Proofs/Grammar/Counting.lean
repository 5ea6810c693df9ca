import Mathlib.Data.List.Induction
import RuleCheck.Proofs.Grammar.Level

/-!
# Proofs — Grammar — counting parentheses

The depth behind a row of kinds is the number of left parentheses in the row less the number of
right ones (`Nesting.depth_ofKinds`).  **An underflow is a beginning of the row in which there are
more right ones than left ones** (`Nesting.underflow_ofKinds_iff`), however the row goes on.  All
other kinds can be left out (`Nesting.ofKinds_filter`).
-/

namespace RuleCheck.Nesting

theorem ofKinds_concat (r : List Kind) (k : Kind) : ofKinds (r ++ [k]) = (ofKinds r).after k :=
  List.foldl_append

/-- Only parentheses count. -/
theorem ofKinds_filter (r : List Kind) : ofKinds (r.filter Kind.isParen) = ofKinds r := by
  induction r using List.reverseRecOn with
  | nil => rfl
  | append_singleton r k ih =>
      rw [List.filter_append, ofKinds_concat]
      cases hk : k.isParen with
      | true => rw [List.filter_cons_of_pos hk, List.filter_nil, ofKinds_concat, ih]
      | false =>
          rw [List.filter_cons_of_neg (by simp [hk]), List.filter_nil, List.append_nil, ih,
            after_of_not_isParen _ hk]

/-! ### Depth -/

theorem depth_after (n : Nesting) (k : Kind) :
    (n.after k).depth = n.depth + ([k].count .leftParen - [k].count .rightParen : Int) := by
  cases k with
  | leftParen | rightParen => rfl
  | _ => simp [after]

theorem depth_ofKinds (r : List Kind) :
    (ofKinds r).depth = (r.count .leftParen : Int) - r.count .rightParen := by
  induction r using List.reverseRecOn with
  | nil => rfl
  | append_singleton r k ih =>
      rw [ofKinds_concat, depth_after, ih, List.count_append, List.count_append]
      omega

theorem depth_ofKinds_neg_iff {r : List Kind} :
    (ofKinds r).depth < 0 ↔ r.count .leftParen < r.count .rightParen := by
  rw [depth_ofKinds]
  omega

/-! ### Underflow -/

/-- Where the depth can be negative only after an underflow, a negative depth is the only cause of
another. -/
theorem underflow_after_iff {n : Nesting} (h : n.depth < 0 → n.underflow) (k : Kind) :
    (n.after k).underflow ↔ n.underflow ∨ (n.after k).depth < 0 := by
  cases k with
  | leftParen =>
      have he : n.enter.depth < 0 → n.depth < 0 := fun hn => by
        simp only [enter] at hn
        omega
      exact ⟨.inl, fun hn => hn.elim id fun hn => h (he hn)⟩
  | rightParen => simp [after, leave]
  | _ => exact ⟨.inl, fun hn => hn.elim id h⟩

/-- An underflow is kept in mind: the depth was negative behind a beginning of the row. -/
theorem underflow_ofKinds_iff_depth {r : List Kind} :
    (ofKinds r).underflow ↔ ∃ a, a <+: r ∧ (ofKinds a).depth < 0 := by
  induction r using List.reverseRecOn with
  | nil => simp [ofKinds, start]
  | append_singleton r k ih =>
      have hneg : (ofKinds r).depth < 0 → (ofKinds r).underflow :=
        fun h => ih.mpr ⟨r, List.prefix_rfl, h⟩
      rw [ofKinds_concat, underflow_after_iff hneg, ih, ← ofKinds_concat]
      constructor
      · rintro (⟨a, ha, hd⟩ | hd)
        · exact ⟨a, ha.trans (List.prefix_append r [k]), hd⟩
        · exact ⟨r ++ [k], List.prefix_rfl, hd⟩
      · rintro ⟨a, ha, hd⟩
        rcases List.prefix_concat_iff.mp ha with rfl | ha
        · exact .inr hd
        · exact .inl ⟨a, ha, hd⟩

/-- **The depth was negative** where more parentheses had been closed than opened. -/
theorem underflow_ofKinds_iff {r : List Kind} :
    (ofKinds r).underflow ↔ ∃ a, a <+: r ∧ a.count .leftParen < a.count .rightParen := by
  simp only [underflow_ofKinds_iff_depth, depth_ofKinds_neg_iff]

end RuleCheck.Nesting
