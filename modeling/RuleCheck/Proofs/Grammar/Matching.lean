import RuleCheck.Proofs.Grammar.Counting

/-!
# Proofs — Grammar — matched parentheses

A row of parentheses that is level is matched by the grammar, with nothing else in it
(`matched_iff_level`).  So **counting decides whether parentheses match**, and tells whether some
beginning of the row closes more of them than it opens (`Nesting.ofKinds_decides`).

The count may be held in a word of 64 bits (`WordNesting`).  One parenthesis changes it by one, so
it cannot wrap round in a row that is no longer than the largest word
(`WordNesting.nesting_ofKinds`).
-/

namespace RuleCheck

/-! ### Matched rows are the level ones -/

namespace Matched

theorem level {r : List Kind} (h : Matched r) : Level r := by
  induction h with
  | nil => exact .nil
  | pair _ _ iha ihb => exact .pair iha ihb

theorem isParen_of_mem {r : List Kind} (h : Matched r) : ∀ k ∈ r, k.isParen := by
  induction h with
  | nil => exact List.forall_mem_nil _
  | pair _ _ iha ihb =>
      exact List.forall_mem_cons.mpr
        ⟨rfl, List.forall_mem_append.mpr ⟨iha, List.forall_mem_cons.mpr ⟨rfl, ihb⟩⟩⟩

end Matched

theorem Level.matched {r : List Kind} (h : Level r) (hp : ∀ k ∈ r, k.isParen) : Matched r := by
  induction h with
  | nil => exact .nil
  | @cons k r hk _ _ =>
      have hk' : k.isParen := hp k List.mem_cons_self
      rw [hk] at hk'
      cases hk'
  | pair _ _ iha ihb =>
      obtain ⟨ha, hb⟩ := List.forall_mem_append.mp (List.forall_mem_cons.mp hp).2
      exact .pair (iha ha) (ihb (List.forall_mem_cons.mp hb).2)

theorem matched_iff_level {r : List Kind} : Matched r ↔ Level r ∧ ∀ k ∈ r, k.isParen :=
  ⟨fun h => ⟨h.level, h.isParen_of_mem⟩, fun h => h.1.matched h.2⟩

/-! ### Counting in a word -/

namespace Nesting

/-- A row cannot be deeper than it is long. -/
theorem natAbs_depth_ofKinds_le (r : List Kind) : (ofKinds r).depth.natAbs ≤ r.length := by
  have hopen : r.count .leftParen ≤ r.length := List.count_le_length
  have hclose : r.count .rightParen ≤ r.length := List.count_le_length
  rw [depth_ofKinds]
  omega

end Nesting

/-- A nesting with its depth in a word of 64 bits, which wraps round at its ends. -/
structure WordNesting where
  depth : Int64
  underflow : Bool

namespace WordNesting

def start : WordNesting := ⟨0, false⟩

def enter (n : WordNesting) : WordNesting := { n with depth := n.depth + 1 }

def leave (n : WordNesting) : WordNesting :=
  { depth := n.depth - 1, underflow := n.underflow || n.depth - 1 < 0 }

def after (n : WordNesting) : Kind → WordNesting
  | .leftParen  => n.enter
  | .rightParen => n.leave
  | _           => n

def ofKinds (ks : List Kind) : WordNesting := ks.foldl after start

/-- The nesting with the depth that the word stands for. -/
def nesting (n : WordNesting) : Nesting := ⟨n.depth.toInt, n.underflow⟩

/-- A number within the range of a word is not wrapped. -/
theorem bmod_size_eq {d : Int} (h : d.natAbs ≤ Int64.maxValue.toInt) : d.bmod Int64.size = d := by
  rw [Int64.toInt_maxValue] at h
  have hsize : Int64.size = 18446744073709551616 := rfl
  rw [hsize]
  exact Int.bmod_eq_of_le (by omega) (by omega)

/-- Away from the ends of a word a step is that of the number it stands for. -/
theorem nesting_after {n : WordNesting} (h : n.depth.toInt.natAbs + 1 ≤ Int64.maxValue.toInt)
    (k : Kind) : (n.after k).nesting = n.nesting.after k := by
  have henter : (n.depth + 1).toInt = n.depth.toInt + 1 := by
    rw [Int64.toInt_add, Int64.toInt_one]
    exact bmod_size_eq (by omega)
  have hleave : (n.depth - 1).toInt = n.depth.toInt - 1 := by
    rw [Int64.toInt_sub, Int64.toInt_one]
    exact bmod_size_eq (by omega)
  have hneg : decide (n.depth - 1 < 0) = decide (n.depth.toInt - 1 < 0) :=
    decide_eq_decide.mpr <| by rw [Int64.lt_iff_toInt_lt, hleave, Int64.toInt_zero]
  cases k with
  | leftParen => exact congrArg (Nesting.mk · n.underflow) henter
  | rightParen => exact congrArg₂ Nesting.mk hleave (congrArg (n.underflow || ·) hneg)
  | _ => rfl

/-- **A word is enough** for a row that is no longer than the largest one. -/
theorem nesting_ofKinds {r : List Kind} (h : r.length ≤ Int64.maxValue.toInt) :
    (ofKinds r).nesting = Nesting.ofKinds r := by
  induction r using List.reverseRecOn with
  | nil => rfl
  | append_singleton r k ih =>
      rw [List.length_append, List.length_singleton] at h
      have hr : (ofKinds r).nesting = Nesting.ofKinds r := ih (by omega)
      have hdepth : (ofKinds r).depth.toInt = (Nesting.ofKinds r).depth :=
        congrArg Nesting.depth hr
      have hroom : (ofKinds r).depth.toInt.natAbs + 1 ≤ Int64.maxValue.toInt := by
        have := Nesting.natAbs_depth_ofKinds_le r
        rw [hdepth]
        omega
      calc (ofKinds (r ++ [k])).nesting
          = ((ofKinds r).after k).nesting := by rw [ofKinds, List.foldl_append]; rfl
        _ = (Nesting.ofKinds r).after k := by rw [nesting_after hroom, hr]
        _ = Nesting.ofKinds (r ++ [k]) := (Nesting.ofKinds_concat r k).symm

end WordNesting

/-! ### What counting decides -/

namespace Nesting

/-- **Counting decides whether parentheses match.**  The depth is what is opened less what is
closed.  An underflow tells that some beginning of the row closes more than it opens, and it stays.
The grammar matches the rows of parentheses that balance, and no others.  A word of 64 bits holds
the depth of every row that is no longer than the largest word. -/
theorem ofKinds_decides (r : List Kind) :
    let n := ofKinds r
    n.depth = (r.count .leftParen : Int) - r.count .rightParen ∧
      (n.underflow ↔ ∃ a, a <+: r ∧ a.count .leftParen < a.count .rightParen) ∧
      (∀ s, n.underflow → (ofKinds (r ++ s)).underflow) ∧
      (Matched r ↔ n.balanced ∧ ∀ k ∈ r, k.isParen) ∧
      (r.length ≤ Int64.maxValue.toInt → (WordNesting.ofKinds r).nesting = n) := by
  refine ⟨depth_ofKinds r, underflow_ofKinds_iff, fun s h => ?_, ?_, WordNesting.nesting_ofKinds⟩
  · rw [ofKinds, List.foldl_append]
    exact underflow_foldl_after h s
  · rw [matched_iff_level, level_iff_balanced]

/-- A parenthesis that was never opened is not made good by one opened later. -/
theorem ofKinds_decides_closed_early :
    let r : List Kind := [.leftParen, .rightParen, .rightParen]
    (ofKinds r).underflow ∧ (ofKinds (r ++ [.leftParen])).underflow ∧
      (ofKinds (r ++ [.leftParen])).depth = 0 ∧ ¬ Matched (r ++ [.leftParen]) ∧
      (WordNesting.ofKinds r).nesting = ofKinds r := by
  intro r
  obtain ⟨-, hu, hs, -, hw⟩ := ofKinds_decides r
  obtain ⟨hd, -, -, hm, -⟩ := ofKinds_decides (r ++ [.leftParen])
  have hr : (ofKinds r).underflow := hu.mpr ⟨r, List.prefix_rfl, by decide⟩
  exact ⟨hr, hs _ hr, hd, fun h => absurd (hm.mp h).1 (by decide), hw (by decide)⟩

end Nesting

end RuleCheck
