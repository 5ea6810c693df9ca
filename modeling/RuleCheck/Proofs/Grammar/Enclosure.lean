import Mathlib.Data.List.Induction
import RuleCheck.Grammar.Walk
import RuleCheck.Proofs.Grammar.Level
import RuleCheck.Proofs.Grammar.Row

/-!
# Proofs — Grammar — what encloses a place

A place in a row is enclosed by the parentheses that are open there, and each of them opened a call
or a group.  `Enclosure` keeps all that in a stack.  Above a row in which the parentheses match the
stack is what it was below (`Level.calls_foldl_after`), so its first member is about the innermost
parenthesis that encloses the place (`Enclosure.calls_behind`).

The grammar itself keeps no stack.  A set says that a parenthesis which comes next opens a call, the
set behind that parenthesis admits variables and paths, and with the next kind both are forgotten.
So **a variable or a path stands directly in a call where it is the first kind in its parentheses**
(`IsExpression.calls_head?_of_isReference`).  A comma admits them whatever encloses it
(`IsExpression.insert_reference`).
-/

namespace RuleCheck

/-- The kinds that refer to something outside of the text. -/
def Kind.isReference : Kind → Bool
  | .var | .path => true
  | _            => false

/-- The last kind before a place, and of the parentheses open there, the innermost first, whether
they opened a call. -/
structure Enclosure where
  last : Option Kind
  calls : List Bool
deriving DecidableEq, Repr

namespace Enclosure

def start : Enclosure := ⟨none, []⟩

/-- A parenthesis opens a call behind a function or a right parenthesis. -/
def after (e : Enclosure) : Kind → Enclosure
  | .leftParen  => ⟨some .leftParen, e.last.any Kind.isCallable :: e.calls⟩
  | .rightParen => ⟨some .rightParen, e.calls.tail⟩
  | k           => ⟨some k, e.calls⟩

/-- What encloses the place behind a row of kinds. -/
def ofKinds (r : List Kind) : Enclosure := r.foldl after start

@[simp] theorem last_after (e : Enclosure) (k : Kind) : (e.after k).last = some k := by
  cases k <;> rfl

theorem calls_after_of_not_isParen (e : Enclosure) {k : Kind} (hk : k.isParen = false) :
    (e.after k).calls = e.calls := by
  cases k with
  | leftParen | rightParen => cases hk
  | _ => rfl

theorem last_ofKinds (r : List Kind) : (ofKinds r).last = r.getLast? := by
  rcases List.eq_nil_or_concat r with rfl | ⟨r, k, rfl⟩
  · rfl
  · rw [List.concat_eq_append, ofKinds, List.foldl_append, List.getLast?_concat]
    exact last_after _ k

end Enclosure

/-- A level row leaves open what was open before it. -/
theorem Level.calls_foldl_after {r : List Kind} (h : Level r) (e : Enclosure) :
    (r.foldl Enclosure.after e).calls = e.calls := by
  induction h generalizing e with
  | nil => rfl
  | cons hk _ ih => rw [List.foldl_cons, ih, e.calls_after_of_not_isParen hk]
  | @pair a b _ _ iha ihb =>
      rw [List.cons_append, List.foldl_cons, List.foldl_append, List.foldl_cons, ihb]
      exact congrArg List.tail (iha (e.after .leftParen))

/-- **The innermost parenthesis** is the one that only matched parentheses come behind. -/
theorem Enclosure.calls_behind {x y : List Kind} (hy : Level y) :
    (ofKinds (x ++ .leftParen :: y)).calls =
      x.getLast?.any Kind.isCallable :: (ofKinds x).calls := by
  rw [ofKinds, List.foldl_append, List.foldl_cons, hy.calls_foldl_after, ← last_ofKinds]
  rfl

theorem Slots.call_mem_after (S : Slots) {k : Kind} (hb : k ≠ .blank) :
    .call ∈ S.after k ↔ k.isCallable := by
  rw [S.mem_after_iff hb Iff.rfl]
  cases k with
  | blank => contradiction
  | _ => exact Iff.rfl

/-- A parenthesis opens a call exactly behind the kinds that can be called. -/
theorem Slots.call_mem_afterRow_start {r : List Kind} (hb : .blank ∉ r) :
    .call ∈ start.afterRow r ↔ r.getLast?.any Kind.isCallable :=
  mem_afterRow_start_iff nofun call_mem_after hb

/-- A reference may come behind a comma and behind the parenthesis of a call. -/
theorem Slots.eq_comma_or_of_admits_reference {S : Slots} {j k : Kind} (hj : j ≠ .blank)
    (hk : k.isReference) (h : (S.after j).admits k) : j = .comma ∨ j = .leftParen ∧ .call ∈ S := by
  cases j with
  | comma => exact .inl rfl
  | blank => contradiction
  | leftParen =>
      refine .inr ⟨rfl, ?_⟩
      by_contra hc
      rw [after_leftParen, if_neg hc] at h
      cases k with
      | var | path => cases h
      | _ => cases hk
  | _ =>
      cases k with
      | var | path => cases h
      | _ => cases hk

/-- Where a reference may come, there is nothing, a comma, or the parenthesis of a call before. -/
theorem Slots.eq_nil_or_of_admits_reference {a : List Kind} {k : Kind} (hb : .blank ∉ a)
    (hk : k.isReference) (h : (start.afterRow a).admits k) :
    (a = [] ∧ k = .var) ∨ a.getLast? = some .comma ∨
      ∃ x, a = x ++ [.leftParen] ∧ x.getLast?.any Kind.isCallable := by
  rcases List.eq_nil_or_concat a with rfl | ⟨a, j, rfl⟩
  · cases k with
    | var => exact .inl ⟨rfl, rfl⟩
    | path => cases h
    | _ => cases hk
  · rw [List.concat_eq_append] at hb h ⊢
    simp only [List.mem_append, List.mem_singleton, not_or] at hb
    rw [afterRow_append] at h
    rcases eq_comma_or_of_admits_reference (Ne.symm hb.2) hk h with rfl | ⟨rfl, hc⟩
    · exact .inr (.inl List.getLast?_concat)
    · exact .inr (.inr ⟨a, rfl, (call_mem_afterRow_start hb.1).mp hc⟩)

namespace IsExpression

/-- **A reference that is not behind a comma** is the first kind of a call's arguments, or it is a
variable and the first kind of all. -/
theorem calls_head?_of_isReference {a b : List Kind} {k : Kind} (h : IsExpression (a ++ k :: b))
    (hb : .blank ∉ a) (hk : k.isReference) (hc : a.getLast? ≠ some .comma) :
    (a = [] ∧ k = .var) ∨ (Enclosure.ofKinds a).calls.head? = some true := by
  have ha := (Slots.admitsRow_append.mp h.1).2.1
  rcases Slots.eq_nil_or_of_admits_reference hb hk ha with ha | ha | ⟨x, rfl, hx⟩
  · exact .inl ha
  · exact absurd ha hc
  · right
    rw [Enclosure.calls_behind .nil, hx]
    rfl

/-- Behind a comma a reference can be put in, and a comma behind it. -/
theorem insert_reference {a b : List Kind} {k : Kind} (h : IsExpression (a ++ .comma :: b))
    (hk : k.isReference) : IsExpression (a ++ .comma :: k :: .comma :: b) := by
  obtain ⟨ha, hn, hl⟩ := h
  obtain ⟨ha, hc, hr⟩ := Slots.admitsRow_append.mp ha
  refine ⟨Slots.admitsRow_append.mpr ⟨ha, hc, ?_⟩, ?_, ?_⟩
  · cases k with
    | var | path => exact ⟨rfl, rfl, hr⟩
    | _ => cases hk
  · have hp : ∀ n : Nesting, n.after k = n := by
      intro n
      cases k with
      | var | path => rfl
      | _ => cases hk
    rw [Nesting.ofKinds, List.foldl_append] at hn ⊢
    rw [List.foldl_cons, List.foldl_cons, hp]
    exact hn
  · rw [List.getLast?_append] at hl ⊢
    rwa [List.getLast?_cons_cons, List.getLast?_cons_cons]

end IsExpression

end RuleCheck
