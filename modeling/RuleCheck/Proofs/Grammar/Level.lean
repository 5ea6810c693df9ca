import RuleCheck.Grammar.Matched

/-!
# Proofs — Grammar — level rows

A row of kinds is level when each of its parentheses has its match in it (`Level`).  Counting finds
out: **a row is level exactly if its nesting balances** (`level_iff_balanced`).

A level row leaves every nesting as it is (`Level.foldl_after`).  For the converse a row is cut
behind the parentheses that close what was open before it (`Unwinds`), so that a left parenthesis
finds its match as the first of them.
-/

namespace RuleCheck

def Kind.isParen : Kind → Bool
  | .leftParen | .rightParen => true
  | _ => false

/-- A row of kinds in which each parenthesis has its match. -/
inductive Level : List Kind → Prop where
  | nil : Level []
  | cons {k : Kind} {r : List Kind} (hk : k.isParen = false) (h : Level r) : Level (k :: r)
  | pair {a b : List Kind} (ha : Level a) (hb : Level b) :
      Level (.leftParen :: a ++ .rightParen :: b)

/-- A row that closes `n` parentheses opened before it, and is level between them. -/
inductive Unwinds : Nat → List Kind → Prop where
  | zero {r : List Kind} (h : Level r) : Unwinds 0 r
  | succ {n : Nat} {a b : List Kind} (ha : Level a) (hb : Unwinds n b) :
      Unwinds (n + 1) (a ++ .rightParen :: b)

theorem Level.append {a b : List Kind} (ha : Level a) (hb : Level b) : Level (a ++ b) := by
  induction ha with
  | nil => exact hb
  | cons hk _ ih => exact .cons hk ih
  | pair ha _ _ ihb =>
      rw [List.append_assoc, List.cons_append]
      exact .pair ha ihb

namespace Nesting

theorem after_of_not_isParen (n : Nesting) {k : Kind} (hk : k.isParen = false) :
    n.after k = n := by
  cases k with
  | leftParen | rightParen => cases hk
  | _ => rfl

theorem leave_enter {n : Nesting} (h : 0 ≤ n.depth) : n.enter.leave = n := by
  obtain ⟨d, u⟩ := n
  have hd : ¬ d < 0 := Int.not_lt.mpr h
  simp [enter, leave, hd]

/-- An underflow is never mended. -/
theorem underflow_foldl_after {n : Nesting} (h : n.underflow) (r : List Kind) :
    (r.foldl after n).underflow := by
  induction r generalizing n with
  | nil => exact h
  | cons k r ih =>
      refine ih ?_
      cases k <;> simp [after, enter, leave, h]

end Nesting

/-- A level row leaves the nesting as it is. -/
theorem Level.foldl_after {r : List Kind} (h : Level r) {n : Nesting} (hn : 0 ≤ n.depth) :
    r.foldl Nesting.after n = n := by
  induction h generalizing n with
  | nil => rfl
  | cons hk _ ih => rw [List.foldl_cons, n.after_of_not_isParen hk, ih hn]
  | @pair a b _ _ iha ihb =>
      have he : 0 ≤ n.enter.depth := Int.le_add_one hn
      calc (Kind.leftParen :: a ++ .rightParen :: b).foldl Nesting.after n
          = b.foldl Nesting.after ((a.foldl Nesting.after n.enter).leave) := by
            simp [Nesting.after]
        _ = b.foldl Nesting.after n := by rw [iha he, Nesting.leave_enter hn]
        _ = n := ihb hn

namespace Unwinds

theorem cons {k : Kind} {n : Nat} {r : List Kind} (hk : k.isParen = false) (h : Unwinds n r) :
    Unwinds n (k :: r) := by
  cases h with
  | zero h => exact .zero (.cons hk h)
  | succ ha hb => exact .succ (.cons hk ha) hb

/-- A left parenthesis is matched by the first that the row closes. -/
theorem open_cons {n : Nat} {r : List Kind} (h : Unwinds (n + 1) r) :
    Unwinds n (.leftParen :: r) := by
  cases h with
  | succ ha hb =>
      cases hb with
      | zero hb => exact .zero (.pair ha hb)
      | @succ m a' b' ha' hb' =>
          -- the pair is level, and so is what comes up to the next one that is closed
          have := Unwinds.succ (.pair ha ha') hb'
          simpa using this

end Unwinds

theorem unwinds_of_balanced {r : List Kind} {n : Nat}
    (h : (r.foldl Nesting.after ⟨n, false⟩).balanced) : Unwinds n r := by
  induction r generalizing n with
  | nil =>
      simp [Nesting.balanced] at h
      subst h
      exact .zero .nil
  | cons k r ih =>
      rw [List.foldl_cons] at h
      cases k with
      | leftParen => exact .open_cons (ih (n := n + 1) h)
      | rightParen =>
          cases n with
          | zero =>
              -- the first parenthesis closes what was never opened
              have hu := Nesting.underflow_foldl_after (n := (⟨0, false⟩ : Nesting).leave) rfl r
              simp [Nesting.after, Nesting.balanced, hu] at h
          | succ n =>
              have hn : (⟨(n + 1 : Nat), false⟩ : Nesting).leave = ⟨n, false⟩ := by
                simp [Nesting.leave]
              simp only [Nesting.after, hn] at h
              exact .succ .nil (ih h)
      | _ => exact .cons rfl (ih h)

/-- **Counting decides whether a row is level.** -/
theorem level_iff_balanced {r : List Kind} : Level r ↔ (Nesting.ofKinds r).balanced := by
  constructor
  · intro h
    rw [Nesting.ofKinds, h.foldl_after (Int.le_refl 0)]
    rfl
  · intro h
    cases unwinds_of_balanced (n := 0) h with
    | zero h => exact h

end RuleCheck
