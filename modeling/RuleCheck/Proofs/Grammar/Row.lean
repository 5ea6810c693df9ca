import RuleCheck.Grammar.Matched
import RuleCheck.Grammar.Progress

/-!
# Proofs — Grammar — rows of kinds

A row of kinds is admitted where each of its kinds may come in its turn (`Slots.AdmitsRow`), and it
leaves what may come after its last kind (`Slots.afterRow`).  Blanks count for nothing in either.

A row is an expression if it is admitted from the start, its parentheses balance and its last kind
may end it (`IsExpression`).

Every kind but a left parenthesis settles alone what may follow it (`Slots.after_eq`).  A comma may
follow exactly the kinds that may end an expression (`Slots.comma_mem_after`), and where a comma may
come a right parenthesis may too (`Slots.rightParen_mem_after`).
-/

namespace RuleCheck

namespace Slots

/-- What may come after a row of kinds. -/
def afterRow (S : Slots) (r : List Kind) : Slots := r.foldl after S

/-- Whether each kind of a row may come where it does. -/
def AdmitsRow (S : Slots) : List Kind → Prop
  | []     => True
  | k :: r => S.admits k ∧ (S.after k).AdmitsRow r

@[simp] theorem afterRow_nil (S : Slots) : S.afterRow [] = S := rfl

@[simp] theorem afterRow_cons (S : Slots) (k : Kind) (r : List Kind) :
    S.afterRow (k :: r) = (S.after k).afterRow r := rfl

@[simp] theorem afterRow_append (S : Slots) (a b : List Kind) :
    S.afterRow (a ++ b) = (S.afterRow a).afterRow b := List.foldl_append

@[simp] theorem admitsRow_nil (S : Slots) : S.AdmitsRow [] := trivial

@[simp] theorem admitsRow_cons {S : Slots} {k : Kind} {r : List Kind} :
    S.AdmitsRow (k :: r) ↔ S.admits k ∧ (S.after k).AdmitsRow r := Iff.rfl

@[simp] theorem admitsRow_append {S : Slots} {a b : List Kind} :
    S.AdmitsRow (a ++ b) ↔ S.AdmitsRow a ∧ (S.afterRow a).AdmitsRow b := by
  induction a generalizing S with
  | nil => simp
  | cons k a ih => simp [ih, and_assoc]

theorem admits_blank (S : Slots) : S.admits .blank := by simp [admits, Kind.slot?]

/-- Every kind but a plus sign fills one slot only. -/
theorem admits_iff_mem {S : Slots} (k : Kind) {s : Slot} (hs : k.slot? = some s)
    (hk : decide (k = .plus) = false) : S.admits k ↔ s ∈ S := by
  simp [admits, hs, hk, mem_iff]

theorem admitsRow_filter {S : Slots} {r : List Kind} :
    S.AdmitsRow (r.filter (· ≠ .blank)) ↔ S.AdmitsRow r := by
  induction r generalizing S with
  | nil => exact Iff.rfl
  | cons k r ih =>
      by_cases hk : k = .blank
      · subst hk
        simpa [admits_blank] using ih
      · simpa [hk] using fun _ => ih

/-! ### What follows a kind -/

theorem after_leftParen (S : Slots) :
    S.after .leftParen = if .call ∈ S then afterCallParen else afterGroupParen := rfl

/-- Only a left parenthesis needs to know what could come in its place. -/
theorem after_eq_or (S : Slots) {k : Kind} (hb : k ≠ .blank) :
    S.after k = start.after k ∨ k = .leftParen ∧ .call ∈ S ∧ S.after k = afterCallParen := by
  by_cases hk : k = .leftParen
  · subst hk
    rw [after_leftParen]
    by_cases hc : .call ∈ S
    · exact .inr ⟨rfl, hc, if_pos hc⟩
    · exact .inl (if_neg hc)
  · left
    cases k <;> first | rfl | contradiction

theorem after_eq (S : Slots) {k : Kind} (hk : k ≠ .leftParen) (hb : k ≠ .blank) :
    S.after k = start.after k :=
  (S.after_eq_or hb).resolve_right fun h => hk h.1

theorem afterRow_eq_of_getLast? (S : Slots) {r : List Kind} {k : Kind} (h : r.getLast? = some k)
    (hk : k ≠ .leftParen) (hb : k ≠ .blank) : S.afterRow r = start.after k := by
  obtain ⟨r, rfl⟩ := List.getLast?_eq_some_iff.mp h
  rw [afterRow_append, afterRow_cons, afterRow_nil, after_eq _ hk hb]

/-- A slot that a left parenthesis gives or does not give, whatever it opens, depends on the last
kind alone. -/
theorem mem_after_iff (S : Slots) {k : Kind} {s : Slot} (hb : k ≠ .blank)
    (hs : s ∈ afterCallParen ↔ s ∈ afterGroupParen) : s ∈ S.after k ↔ s ∈ start.after k := by
  rcases S.after_eq_or hb with h | ⟨rfl, -, h⟩
  · rw [h]
  · rw [h]
    exact hs

theorem comma_mem_after (S : Slots) {k : Kind} (hb : k ≠ .blank) :
    .comma ∈ S.after k ↔ k.mayEnd := by
  rw [S.mem_after_iff hb Iff.rfl]
  cases k with
  | blank => contradiction
  | _ => exact Iff.rfl

theorem rightParen_mem_after (S : Slots) {k : Kind} (hb : k ≠ .blank)
    (hc : .comma ∈ S.after k) : .rightParen ∈ S.after k := by
  rcases S.after_eq_or hb with h | ⟨rfl, -, h⟩
  · rw [h] at hc ⊢
    cases k with
    | blank => contradiction
    | boolean | number | string | var | path | rightParen => rfl
    | _ => cases hc
  · rw [h]
    rfl

/-- What the last kind settles is settled by the last kind of a row. -/
theorem mem_afterRow_start_iff {s : Slot} {p : Kind → Bool} {r : List Kind} (hs : s ∉ start)
    (hp : ∀ (S : Slots) {k}, k ≠ .blank → (s ∈ S.after k ↔ p k)) (hb : .blank ∉ r) :
    s ∈ start.afterRow r ↔ r.getLast?.any p := by
  rcases List.eq_nil_or_concat r with rfl | ⟨r, k, rfl⟩
  · exact ⟨fun h => absurd h hs, nofun⟩
  · rw [List.concat_eq_append] at hb ⊢
    have hk : k ≠ .blank := by
      rintro rfl
      simp at hb
    rw [afterRow_append, afterRow_cons, afterRow_nil, hp _ hk, List.getLast?_concat,
      Option.any_some]

/-- A comma may come exactly where an expression may end. -/
theorem comma_mem_afterRow_start {r : List Kind} (hb : .blank ∉ r) :
    .comma ∈ start.afterRow r ↔ r.getLast?.any Kind.mayEnd :=
  mem_afterRow_start_iff nofun comma_mem_after hb

/-! ### Where items begin and end -/

/-- The sets that say what may come where an item begins: all that may come behind an operator, and
perhaps a variable, a path or a right parenthesis. -/
structure Opens (S : Slots) : Prop where
  admits_of : ∀ k, afterOperator.admits k → S.admits k
  of_admits : ∀ k, S.admits k → afterOperator.admits k ∨ k = .var ∨ k = .path ∨ k = .rightParen
  call_notMem : .call ∉ S

theorem opens_start : Opens start :=
  ⟨fun k => by cases k <;> decide, fun k => by cases k <;> decide, by decide⟩

theorem opens_afterOperator : Opens afterOperator :=
  ⟨fun _ => id, fun _ => .inl, by decide⟩

theorem opens_afterGroupParen : Opens afterGroupParen :=
  ⟨fun k => by cases k <;> decide, fun k => by cases k <;> decide, by decide⟩

theorem opens_afterCallParen : Opens afterCallParen :=
  ⟨fun k => by cases k <;> decide, fun k => by cases k <;> decide, by decide⟩

theorem opens_afterComma : Opens afterComma :=
  ⟨fun k => by cases k <;> decide, fun k => by cases k <;> decide, by decide⟩

/-- Where an item begins, it is all the same which of the sets says what may come. -/
theorem after_eq_of_opens {S : Slots} (hS : Opens S) {k : Kind} (hb : k ≠ .blank) :
    S.after k = start.after k := by
  rcases S.after_eq_or hb with h | ⟨-, hc, -⟩
  · exact h
  · -- a parenthesis where an item begins is no call
    exact absurd hc hS.call_notMem

/-- What may come where an item is complete: it can be closed, and others can come behind it. -/
structure Closes (S : Slots) : Prop where
  comma_mem : .comma ∈ S
  rightParen_mem : .rightParen ∈ S

theorem closes_after (S : Slots) {k : Kind} (h : k.mayEnd) : Closes (S.after k) := by
  have hb : k ≠ .blank := by
    rintro rfl
    cases h
  have hc := (S.comma_mem_after hb).mpr h
  exact ⟨hc, S.rightParen_mem_after hb hc⟩

theorem Closes.admits_comma {S : Slots} (h : Closes S) : S.admits .comma :=
  (admits_iff_mem .comma rfl rfl).mpr h.comma_mem

theorem Closes.admits_rightParen {S : Slots} (h : Closes S) : S.admits .rightParen :=
  (admits_iff_mem .rightParen rfl rfl).mpr h.rightParen_mem

end Slots

/-- Whether a row of kinds is an expression. -/
def IsExpression (r : List Kind) : Prop :=
  Slots.start.AdmitsRow r ∧ (Nesting.ofKinds r).balanced ∧ r.getLast?.any Kind.mayEnd

theorem IsExpression.mayEnd {r : List Kind} (h : IsExpression r) :
    ∀ k ∈ r.getLast?, k.mayEnd := by
  intro k hk
  have := h.2.2
  rwa [Option.mem_def.mp hk] at this

/-! ### Progress along a row -/

namespace Progress

/-- The progress after a row of kinds. -/
def afterRow (p : Progress) (r : List Kind) : Progress := r.foldl after p

@[simp] theorem slots_after (p : Progress) (k : Kind) : (p.after k).slots = p.slots.after k := by
  by_cases hk : k = .blank
  · simp [hk]
  · simp [after_of_ne_blank p hk]

@[simp] theorem nesting_after (p : Progress) (k : Kind) :
    (p.after k).nesting = p.nesting.after k := by
  by_cases hk : k = .blank
  · simp [hk]
  · simp [after_of_ne_blank p hk]

@[simp] theorem slots_afterRow (p : Progress) (r : List Kind) :
    (p.afterRow r).slots = p.slots.afterRow r := by
  induction r generalizing p with
  | nil => rfl
  | cons k r ih => exact (ih (p.after k)).trans (by simp)

@[simp] theorem nesting_afterRow (p : Progress) (r : List Kind) :
    (p.afterRow r).nesting = r.foldl Nesting.after p.nesting := by
  induction r generalizing p with
  | nil => rfl
  | cons k r ih => exact (ih (p.after k)).trans (by simp)

theorem last_afterRow (p : Progress) {r : List Kind} (hb : ∀ k ∈ r, k ≠ .blank) :
    (p.afterRow r).last = r.getLast?.or p.last := by
  induction r generalizing p with
  | nil => rfl
  | cons k r ih =>
      have hk := hb k (List.mem_cons_self ..)
      refine (ih (p.after k) fun j hj => hb j (List.mem_cons_of_mem _ hj)).trans ?_
      rw [after_of_ne_blank p hk, List.getLast?_cons]
      cases r.getLast? <;> rfl

theorem afterRow_filter (p : Progress) (r : List Kind) :
    p.afterRow (r.filter (· ≠ .blank)) = p.afterRow r := by
  induction r generalizing p with
  | nil => rfl
  | cons k r ih =>
      by_cases hk : k = .blank
      · subst hk
        simpa [afterRow] using ih p
      · simpa [afterRow, hk] using ih (p.after k)

/-- What is missing at the end of a row from the start. -/
theorem missing?_afterRow_start_eq {r : List Kind} (hb : ∀ k ∈ r, k ≠ .blank) :
    (start.afterRow r).missing? =
      if !(Nesting.ofKinds r).balanced then some .unbalanced
      else if r.getLast?.any Kind.mayEnd then none
      else some .incomplete := by
  have hn : (start.afterRow r).nesting = Nesting.ofKinds r := nesting_afterRow start r
  have hl : (start.afterRow r).last = r.getLast? := by
    rw [last_afterRow start hb]
    exact Option.or_none
  rw [missing?, hn, hl]

/-- An expression may end after a row from the start exactly if nothing is missing. -/
theorem missing?_afterRow_start {r : List Kind} (hb : ∀ k ∈ r, k ≠ .blank) :
    (start.afterRow r).missing? = none ↔
      (Nesting.ofKinds r).balanced ∧ r.getLast?.any Kind.mayEnd := by
  rw [missing?_afterRow_start_eq hb]
  by_cases hbal : (Nesting.ofKinds r).balanced
  · by_cases hend : r.getLast?.any Kind.mayEnd
    · simp [hbal, hend]
    · simp [hbal, hend]
  · simp [hbal]

end Progress

end RuleCheck
