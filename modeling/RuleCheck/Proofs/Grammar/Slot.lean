import Mathlib.Data.List.Basic
import RuleCheck.Grammar.Slot
import RuleCheck.Proofs.Text.Span

/-!
# Proofs — Grammar — sets of slots

A set of slots is kept as flags, one at the index of each slot, while its members are listed along
`Slot.all`.  The two orders are one, so **the flags behave as a set** (`Slots.ofList_laws`): it has
the members that it was listed with, in whatever order and however often, and lists each of them
once.  The names of its members, in that order, tell the set (`Slots.render_inj`).

What a set admits is settled member by member (`Slots.admits_iff`), so two sets together admit what
one of them does; `call` adds nothing to it (`Slots.admits_congr`).
-/

namespace RuleCheck

/-! ### Names in a row -/

theorem intercalate_append_self (s w : Text) (ws : List Text) :
    s.intercalate (w :: ws) ++ s = (w :: ws).flatMap (· ++ s) := by
  induction ws generalizing w with
  | nil => simp
  | cons v ws ih =>
      rw [List.intercalate_cons_cons, List.append_assoc, ih, List.flatMap_cons (x := w),
        List.append_assoc]

namespace Slot

theorem comma_notMem_name (s : Slot) : ',' ∉ s.name := by
  cases s <;> decide

theorem name_ne_nil (s : Slot) : s.name ≠ [] := by
  cases s <;> decide

theorem flatMap_name_injective {as bs : List Slot}
    (h : as.flatMap (fun s => s.name ++ ", ".toList) = bs.flatMap fun s => s.name ++ ", ".toList) :
    as = bs := by
  induction as generalizing bs with
  | nil =>
      cases bs with
      | nil => rfl
      | cons b bs => simp at h
  | cons a as ih =>
      cases bs with
      | nil => simp at h
      | cons b bs =>
          simp only [List.flatMap_cons, List.append_assoc] at h
          obtain ⟨hn, h⟩ := append_cons_inj a.comma_notMem_name b.comma_notMem_name h
          rw [name_injective hn, ih (List.cons_injective h)]

theorem intercalate_names_eq_nil_iff {as : List Slot} :
    ", ".toList.intercalate (as.map name) = [] ↔ as = [] := by
  cases as with
  | nil => exact ⟨fun _ => rfl, fun _ => rfl⟩
  | cons a as => cases as <;> simp [a.name_ne_nil]

theorem intercalate_names_injective {as bs : List Slot}
    (h : ", ".toList.intercalate (as.map name) = ", ".toList.intercalate (bs.map name)) :
    as = bs := by
  by_cases ha : as = []
  · subst ha
    exact (intercalate_names_eq_nil_iff.mp h.symm).symm
  · have hb : bs ≠ [] := by
      rwa [Ne, ← intercalate_names_eq_nil_iff, ← h, intercalate_names_eq_nil_iff]
    obtain ⟨a, as, rfl⟩ := List.exists_cons_of_ne_nil ha
    obtain ⟨b, bs, rfl⟩ := List.exists_cons_of_ne_nil hb
    have h := congrArg (· ++ ", ".toList) h
    simp only [List.map_cons, intercalate_append_self] at h
    rw [← List.map_cons, ← List.map_cons, List.flatMap_map, List.flatMap_map] at h
    exact flatMap_name_injective h

end Slot

/-- **The text of a set tells its members.** -/
theorem Slots.render_injective {S T : Slots} (h : S.render = T.render) : S = T := by
  have hn := Slot.intercalate_names_injective
    (List.append_cancel_left (List.append_cancel_right h))
  rw [← ofList_toList S, hn, ofList_toList]

/-! ### What a set admits -/

theorem Kind.slot?_ne_call (k : Kind) : k.slot? ≠ some .call := by
  cases k <;> nofun

namespace Slots

theorem admits_iff {S : Slots} {k : Kind} :
    S.admits k ↔ k = .plus ∧ .plus ∈ S ∨ ∀ s ∈ k.slot?, s ∈ S := by
  rw [admits, Bool.or_eq_true, Bool.and_eq_true, decide_eq_true_eq]
  cases k.slot? with
  | none => simp
  | some s => simp [mem_iff]

/-- `call` admits no kind. -/
theorem admits_congr {S T : Slots} (h : ∀ s, s ≠ .call → (s ∈ S ↔ s ∈ T)) (k : Kind) :
    S.admits k = T.admits k := by
  have hslot : (∀ s ∈ k.slot?, s ∈ S) ↔ ∀ s ∈ k.slot?, s ∈ T :=
    forall₂_congr fun s hs => h s fun he => k.slot?_ne_call (he ▸ hs)
  rw [Bool.eq_iff_iff, admits_iff, admits_iff, h .plus nofun, hslot]

theorem admits_ofList_append {l m : List Slot} {k : Kind} :
    (ofList (l ++ m)).admits k ↔ (ofList l).admits k ∨ (ofList m).admits k := by
  simp only [admits_iff, mem_ofList, List.mem_append]
  cases k.slot? with
  | none => simp
  | some s =>
      simp only [Option.mem_def, Option.some.injEq, forall_eq']
      rw [and_or_left, or_or_or_comm]

/-! ### Sets as lists of members -/

theorem ofList_inj {l m : List Slot} : ofList l = ofList m ↔ ∀ s, s ∈ l ↔ s ∈ m := by
  constructor
  · intro h s
    rw [← mem_ofList, h, mem_ofList]
  · intro h
    exact ext_mem fun s => by rw [mem_ofList, mem_ofList, h s]

theorem render_inj {S T : Slots} : S.render = T.render ↔ S = T :=
  ⟨render_injective, congrArg render⟩

/-- **The flags behave as a set.**  A set has the members that it was listed with and lists each of
them once, in the order of declaration.  Two sets are equal exactly if they were listed with the
same members, and exactly if they have one text.  Two lists together admit what one of them does: a
plus by `sign` or `plus`, a minus by `sign` alone, a blank always, and nothing by `call`. -/
theorem ofList_laws (l m : List Slot) :
    (∀ s, s ∈ ofList l ↔ s ∈ l) ∧
      ((ofList l).toList.Pairwise (·.index < ·.index) ∧ (∀ s, s ∈ (ofList l).toList ↔ s ∈ l) ∧
        ofList (ofList l).toList = ofList l) ∧
      ((ofList l = ofList m ↔ ∀ s, s ∈ l ↔ s ∈ m) ∧
        (ofList l = ofList m ↔ (ofList l).render = (ofList m).render)) ∧
      (∀ k, (ofList (l ++ m)).admits k ↔ (ofList l).admits k ∨ (ofList m).admits k) ∧
      ((ofList l).admits .plus ↔ .sign ∈ l ∨ .plus ∈ l) ∧
      ((ofList l).admits .minus ↔ .sign ∈ l) ∧
      (ofList l).admits .blank ∧
      ∀ k, (ofList (.call :: l)).admits k = (ofList l).admits k := by
  have hlist : ∀ s, s ∈ (ofList l).toList ↔ s ∈ l := fun s => mem_toList.trans mem_ofList
  have hcall : ∀ s, s ≠ .call → (s ∈ ofList (.call :: l) ↔ s ∈ ofList l) := fun s hs => by
    rw [mem_ofList, mem_ofList, List.mem_cons, or_iff_right hs]
  refine ⟨fun s => mem_ofList, ⟨pairwise_toList _, hlist, ofList_toList _⟩,
    ⟨ofList_inj, render_inj.symm⟩, fun k => admits_ofList_append, ?_, ?_, rfl, admits_congr hcall⟩
  · rw [admits_iff]
    simp [Kind.slot?, or_comm]
  · rw [admits_iff]
    simp [Kind.slot?]

example : (ofList [.comma, .rightParen, .comma]).render = "\x7bRightParen, Comma\x7d".toList := by
  decide

end Slots

end RuleCheck
