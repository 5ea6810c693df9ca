import RuleCheck.Proofs.Grammar.Enclosure
import RuleCheck.Proofs.Grammar.Matching
import RuleCheck.Proofs.Scan.Resumption

/-!
# Proofs — Scan — what a scan keeps of its lexemes

A scan keeps a set, a counter and one kind of all the lexemes that it has accepted.  What it keeps
tallies with the row of their kinds (`Progress.Tallies`): a comma may come exactly where an
expression may end, a call exactly behind what can be called, a right parenthesis where a comma may
or where it closes a call that has no arguments yet; and the counter counts.

One kind more leaves it so (`Slots.Tallies.after`, `Nesting.underflow_after_iff`).  So **the tally
is right after any number of steps**, of which some may fail (`Scan.tallies_iterate`).  On the way
the counter stays within a word of 64 bits, unless the text is longer than the largest word
(`Scan.wordNesting_iterate`).
-/

namespace RuleCheck

/-! ### What may come behind a kind -/

namespace Slots

theorem plus_mem_after (S : Slots) {k : Kind} (hb : k ≠ .blank) :
    .plus ∈ S.after k ↔ k = .number := by
  rw [S.mem_after_iff hb Iff.rfl]
  cases k with
  | blank => contradiction
  | number => exact ⟨fun _ => rfl, fun _ => rfl⟩
  | _ => exact ⟨nofun, nofun⟩

/-- What can be called can be followed by a parenthesis. -/
theorem leftParen_mem_after (S : Slots) {k : Kind} (hk : k.isCallable) :
    .leftParen ∈ S.after k := by
  cases k with
  | function | rightParen => rfl
  | _ => cases hk

/-- A right parenthesis may come where a comma may, and where a call begins. -/
theorem rightParen_mem_after_iff (S : Slots) {k : Kind} (hb : k ≠ .blank) :
    .rightParen ∈ S.after k ↔ .comma ∈ S.after k ∨ k = .leftParen ∧ .call ∈ S := by
  by_cases hk : k = .leftParen
  · subst hk
    have hc : .comma ∉ S.after .leftParen := mt (S.comma_mem_after hb).mp nofun
    rw [after_leftParen] at hc ⊢
    by_cases hcall : .call ∈ S
    · rw [if_pos hcall]
      exact ⟨fun _ => .inr ⟨rfl, hcall⟩, fun _ => rfl⟩
    · rw [if_neg hcall] at hc ⊢
      exact ⟨nofun, fun h => h.elim (fun h => absurd h hc) fun h => absurd h.2 hcall⟩
  · have hc : .rightParen ∈ S.after k → .comma ∈ S.after k := by
      rw [S.after_eq hk hb]
      cases k with
      | blank | leftParen => contradiction
      | boolean | number | string | var | path | rightParen => exact fun _ => rfl
      | _ => exact nofun
    exact ⟨fun h => .inl (hc h), fun h => h.elim (S.rightParen_mem_after hb) fun h => absurd h.1 hk⟩

/-- Behind a kind never the same may come as at the start. -/
theorem after_ne_start (S : Slots) {k : Kind} (hb : k ≠ .blank) : S.after k ≠ start := by
  rcases S.after_eq_or hb with h | ⟨rfl, -, h⟩
  · rw [h]
    cases k with
    | blank => contradiction
    | _ => decide
  · rw [h]
    decide

end Slots

/-! ### The tally -/

/-- A row that ends with the parenthesis of a call. -/
def OpensCall (r : List Kind) : Prop := ∃ a k, r = a ++ [k, .leftParen] ∧ k.isCallable

theorem opensCall_concat {r : List Kind} {k : Kind} :
    OpensCall (r ++ [k]) ↔ k = .leftParen ∧ r.getLast?.any Kind.isCallable := by
  constructor
  · rintro ⟨a, j, h, hj⟩
    rw [List.append_cons a, List.append_singleton_inj] at h
    obtain ⟨rfl, rfl⟩ := h
    exact ⟨rfl, by simpa using hj⟩
  · rintro ⟨rfl, h⟩
    obtain ⟨j, hr, hj⟩ := (Option.any_eq_true _ _).mp h
    obtain ⟨a, rfl⟩ := List.getLast?_eq_some_iff.mp hr
    exact ⟨a, j, (List.append_cons a j [.leftParen]).symm, hj⟩

/-- What may come tallies with the row of kinds before, which has no blanks. -/
structure Slots.Tallies (S : Slots) (r : List Kind) : Prop where
  comma : .comma ∈ S ↔ r.getLast?.any Kind.mayEnd
  call : .call ∈ S ↔ r.getLast?.any Kind.isCallable
  leftParen : .call ∈ S → .leftParen ∈ S
  rightParen : .rightParen ∈ S ↔ .comma ∈ S ∨ OpensCall r
  start : S = .start ↔ r = []
  plus : .plus ∈ S ↔ r.getLast? = some .number

namespace Slots

theorem tallies_start : start.Tallies [] where
  comma := ⟨nofun, nofun⟩
  call := ⟨nofun, nofun⟩
  leftParen := nofun
  rightParen := ⟨nofun, fun h => h.elim nofun fun ⟨a, k, h, _⟩ => by simp at h⟩
  start := ⟨fun _ => rfl, fun _ => rfl⟩
  plus := ⟨nofun, nofun⟩

/-- **One kind more** leaves the tally right. -/
theorem Tallies.after {S : Slots} {r : List Kind} {k : Kind} (h : S.Tallies r) (hk : k ≠ .blank) :
    (S.after k).Tallies (r ++ [k]) where
  comma := by simpa using S.comma_mem_after hk
  call := by simpa using S.call_mem_after hk
  leftParen hc := S.leftParen_mem_after ((S.call_mem_after hk).mp hc)
  rightParen := by
    rw [opensCall_concat, ← h.call]
    exact S.rightParen_mem_after_iff hk
  start := ⟨fun hs => absurd hs (S.after_ne_start hk), fun hr => by simp at hr⟩
  plus := by simpa using S.plus_mem_after hk

theorem tallies_afterRow {r : List Kind} (hb : .blank ∉ r) : (start.afterRow r).Tallies r := by
  induction r using List.reverseRecOn with
  | nil => exact tallies_start
  | append_singleton r k ih =>
      simp only [List.mem_append, List.mem_singleton, not_or] at hb
      rw [afterRow_append]
      exact (ih hb.1).after (Ne.symm hb.2)

end Slots

/-- What a progress keeps tallies with the row of kinds before it, which has no blanks. -/
structure Progress.Tallies (p : Progress) (r : List Kind) : Prop where
  last : p.last = r.getLast?
  slots : p.slots.Tallies r
  depth : p.nesting.depth = (r.count .leftParen : Int) - r.count .rightParen
  /-- Among the parentheses of the row, behind some of them more were closed than opened. -/
  underflow : p.nesting.underflow ↔
    ∃ a, a <+: r.filter Kind.isParen ∧ a.count .leftParen < a.count .rightParen

theorem Progress.tallies_afterRow {r : List Kind} (hb : .blank ∉ r) :
    (start.afterRow r).Tallies r := by
  have hn : (start.afterRow r).nesting = Nesting.ofKinds r := nesting_afterRow start r
  refine ⟨?_, ?_, ?_, ?_⟩
  · rw [last_afterRow start fun k hk => ne_of_mem_of_not_mem hk hb]
    exact Option.or_none
  · rw [slots_afterRow]
    exact Slots.tallies_afterRow hb
  · rw [hn, Nesting.depth_ofKinds]
  · rw [hn, ← Nesting.ofKinds_filter, Nesting.underflow_ofKinds_iff]

/-- **A word holds the counter** of every scan of a text that is no longer than the largest one. -/
theorem Scan.wordNesting_iterate {t : Text} (h : t.length ≤ Int64.maxValue.toInt) (n : Nat) :
    (WordNesting.ofKinds (kinds ((start t).taken n))).nesting =
      (advance^[n] (start t)).progress.nesting := by
  set s := advance^[n] (start t)
  set r := (start t).taken n
  have hs : Steps (start t) r s := (start t).steps_taken n
  have hsize : s.place.size = t.length := congrArg List.length hs.text_eq
  have hcolumn : s.place.column = totalWidth r := hs.column_eq.trans (Nat.zero_add _)
  have hkinds : (kinds r).length ≤ r.length := by
    rw [kinds, significant, List.length_map]
    exact List.length_filter_le _ _
  -- every parenthesis takes a character of the text
  have hword : (kinds r).length ≤ Int64.maxValue.toInt := by
    have := hs.length_le
    have := s.place.column_le_size
    omega
  rw [WordNesting.nesting_ofKinds hword, hs.progress_eq, ← Progress.afterRow_kinds,
    Progress.nesting_afterRow]
  rfl

/-- **What a scan keeps tallies with the lexemes that it has accepted**, after any number of
steps, and its column is the number of characters that these take. -/
theorem Scan.tallies_iterate (t : Text) (n : Nat) :
    let s := advance^[n] (.start t)
    let r := (start t).taken n
    s.progress.Tallies (kinds r) ∧ s.place.column = totalWidth r ∧ s.place.column ≤ t.length := by
  intro s r
  have h : Steps (start t) r s := (start t).steps_taken n
  have hsize : s.place.size = t.length := congrArg List.length h.text_eq
  refine ⟨?_, h.column_eq.trans (Nat.zero_add _), hsize ▸ s.place.column_le_size⟩
  rw [h.progress_eq, ← Progress.afterRow_kinds]
  exact Progress.tallies_afterRow (blank_notMem_kinds r)

end RuleCheck
