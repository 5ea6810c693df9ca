import Mathlib.Data.List.Infix
import RuleCheck.Proofs.Grammar.Completion
import RuleCheck.Proofs.Scan.Language

/-!
# Proofs — Scan — no fault is found late

A fault at a lexeme, a character or an escape is found at once.  **What was accepted before the
fault begins some accepted text** (`exists_completion`), if no parenthesis was closed in it that had
not been opened.  Such a parenthesis is found only at the end of the text, where the count of the
parentheses is looked at.

The text is cut where the fault was found and completed there (`isExpression_append`).  The lexemes
before the cut are read again as they were (`Lexes.exchange`): what completes an item never
continues the last of them (`Slots.Ends.clear`), and nothing but a number or a parenthesis comes
first, which no operator holds.
-/

namespace RuleCheck

/-! ### What completes a text -/

/-- The spelling of as many right parentheses. -/
def closing (n : Nat) : Text := List.replicate n ')'

theorem eq_of_mem_head?_closing {n : Nat} {c : Char} (h : c ∈ (closing n).head?) : c = ')' :=
  List.eq_of_mem_replicate (List.mem_of_mem_head? h)

/-- A spelling before a text of lexemes is one kind more. -/
theorem exists_lexes_append {k : Token} {w t : Text} {r : List Kind} (hs : Spells k w)
    (hc : Clear k w t) (hk : k.kind ≠ .blank) (h : ∃ x, Lexes t x [] ∧ kinds x = r) :
    ∃ x, Lexes (w ++ t) x [] ∧ kinds x = k.kind :: r := by
  obtain ⟨x, hx, rfl⟩ := h
  exact ⟨_, Lexes.spell hs hc hx, kinds_cons hk⟩

theorem lexes_closing (n : Nat) : ∃ x, Lexes (closing n) x [] ∧ kinds x = closers n := by
  induction n with
  | zero => exact ⟨[], .nil [], rfl⟩
  | succ n ih => exact exists_lexes_append .rightParen trivial nofun ih

namespace Slots.Ends

variable {S : Slots} {e : List Kind} {w : Text}

theorem lexes (h : Ends S e w) (n : Nat) :
    ∃ x, Lexes (w ++ closing n) x [] ∧ kinds x = e ++ closers n := by
  cases h with
  | nothing => exact lexes_closing n
  | number =>
      have hs : Spells (.number (Numeral.magnitude ['1'])) ['1'] := by
        refine .number (List.cons_ne_nil _ _) fun c hc => ?_
        obtain rfl := List.mem_singleton.mp hc
        rfl
      refine exists_lexes_append hs (fun c hc => ?_) nofun (lexes_closing n)
      obtain rfl := eq_of_mem_head?_closing hc
      decide
  | call =>
      have hr := exists_lexes_append .rightParen trivial nofun (lexes_closing n)
      exact exists_lexes_append .leftParen trivial nofun hr

theorem apart (h : Ends S e w) (n : Nat) : Apart (w ++ closing n) := by
  have hno : ∀ op : Operator, '1' ∉ op.spelling ∧ '(' ∉ op.spelling ∧ ')' ∉ op.spelling := by
    intro op
    cases op <;> decide
  intro c hc op
  cases h with
  | nothing =>
      obtain rfl := eq_of_mem_head?_closing hc
      exact (hno op).2.2
  | number =>
      cases hc
      exact (hno op).1
  | call =>
      cases hc
      exact (hno op).2.1

/-- What completes an item behind a lexeme is no part of the lexeme. -/
theorem clear {k : Token} (h : Ends (S.after k.kind) e w) (hk : k.kind ≠ .blank) (n : Nat)
    (u : Text) : Clear k u (w ++ closing n) := by
  cases k with
  | blank => contradiction
  | boolean | string | leftParen | rightParen | comma | plus | minus => trivial
  | number | var | path =>
      -- the item is complete already
      cases h with
      | nothing =>
          intro c hc
          obtain rfl := eq_of_mem_head?_closing hc
          decide
      | number h => cases h
      | call h => cases h
  | function =>
      cases h with
      | nothing h => cases h
      | number h => cases h
      | call =>
          intro c hc
          cases hc
          decide
  | operator =>
      cases h with
      | nothing h => cases h
      | number => exact fun _ => List.cons_ne_nil _ _
      | call h hc => cases hc

end Slots.Ends

/-! ### Where a fault is found -/

/-- Whether the fault is found by reading from a column on: what it is about stands there, or the
escape that it is about belongs to the literal that begins there. -/
def Fault.FoundFrom (f : Fault) (t : Text) (column : Nat) : Prop :=
  match f.cause with
  | .badEscape sequence =>
      t[column]? = some '\'' ∧ read (t.drop column) = .badEscape (f.column - column) sequence
  | _ => f.column = column

theorem Place.take_column_append (p : Place) : p.text.take p.column ++ p.ahead = p.text := by
  rw [ahead_eq_drop, List.take_append_drop]

namespace Scan

theorem foundFrom_of_next {s : Scan} {f : Fault} (h : s.next = .error f) :
    f.FoundFrom s.place.text s.place.column := by
  rw [next] at h
  split at h
  · cases h
    rfl
  · rename_i offset sequence hr
    cases h
    refine ⟨?_, ?_⟩
    · have hq := head?_of_badEscape hr
      rwa [Place.ahead_eq_drop, List.head?_drop] at hq
    · rw [Nat.add_sub_cancel_left, ← Place.ahead_eq_drop, hr]
  · split at h <;> cases h
    rfl

/-- Only two faults show at the end. -/
theorem cause_of_finish {s : Scan} {f : Fault} (h : s.finish = .rejected f) :
    f.cause = .unbalanced ∨ f.cause = .incomplete := by
  rw [finish, Progress.missing?] at h
  split at h
  · cases h
  · rename_i c hc
    cases h
    split at hc
    · cases hc
      exact .inl rfl
    · split at hc <;> cases hc
      exact .inr rfl

/-- **What has been accepted can be completed.** -/
theorem Steps.completes {t : Text} {s : Scan} {r : List Lexeme} (h : Steps (start t) r s)
    (ne : s.place.ahead ≠ []) (hn : ∀ a, a <+: kinds r → 0 ≤ (Nesting.ofKinds a).depth) :
    ∃ v, check (t.take s.place.column ++ v) = .accepted := by
  have hb : .blank ∉ kinds r := blank_notMem_kinds r
  have ha : Slots.start.AdmitsRow (kinds r) := by
    rw [kinds_eq_filter, Slots.admitsRow_filter]
    exact h.admitsRow
  obtain ⟨n, hn⟩ := Nesting.exists_ofKinds_eq hn
  obtain ⟨e, w, he⟩ := Slots.exists_ends (Slots.reached_afterRow hb)
  have hl : ∀ l ∈ r.getLast?, l.kind ≠ .blank → ∀ u, Clear l.token u (w ++ closing n) := by
    intro l hl hk u
    obtain ⟨r, rfl⟩ := List.getLast?_eq_some_iff.mp hl
    rw [kinds_append, kinds_cons hk, Slots.afterRow_append] at he
    exact he.clear hk n u
  obtain ⟨u, hu, hr⟩ := h.lexes.exchange ne (he.apart n) hl
  obtain ⟨x, hx, hk⟩ := he.lexes n
  have ht : t.take s.place.column = u := by
    have := s.place.take_column_append
    rw [h.text_eq] at this
    exact List.append_cancel_right (this.trans hu)
  refine ⟨w ++ closing n, check_eq_accepted_iff.mpr ⟨r ++ x, ?_, ?_⟩⟩
  · rw [ht]
    exact lexemes?_eq_some_iff.mpr (hr.append hx)
  · rw [kinds_append, hk]
    exact isExpression_append hb ha hn he

end Scan

/-- **No fault is found late.**  Where a lexeme may not come, where there is none or where an escape
stands for nothing, the text before it can be completed, unless a parenthesis was closed in it that
had not been opened. -/
theorem exists_completion {t : Text} {f : Fault} (h : check t = .rejected f)
    (hu : f.cause ≠ .unbalanced) (hi : f.cause ≠ .incomplete)
    (hn : ∀ a, a <+: kinds ((Scan.start t).run.accepted.map Acceptance.lexeme) →
      0 ≤ (Nesting.ofKinds a).depth) :
    f.FoundFrom t (Scan.start t).halt.place.column ∧
      ∃ v, check (t.take (Scan.start t).halt.place.column ++ v) = .accepted := by
  obtain ⟨hs, ⟨-, hv⟩ | ⟨ne, g, hg, hv⟩⟩ := Scan.steps_halt (s := .start t) rfl
  · rcases Scan.cause_of_finish (hv.symm.trans h) with hc | hc
    · exact absurd hc hu
    · exact absurd hc hi
  · obtain rfl : g = f := Verdict.rejected.inj (hv.symm.trans h)
    refine ⟨?_, hs.completes ne hn⟩
    have := Scan.foundFrom_of_next hg
    rwa [hs.text_eq] at this

/-- A number behind a number cannot be gone on with, and what comes before it can. -/
theorem exists_completion_before_number :
    check "max(1 2".toList = .rejected ⟨6, .unexpected .number⟩ ∧
      ∃ v, check ("max(1 ".toList ++ v) = .accepted := by
  have h : check "max(1 2".toList = .rejected ⟨6, .unexpected .number⟩ := by decide +kernel
  have hk : kinds ((Scan.start "max(1 2".toList).run.accepted.map Acceptance.lexeme) =
      [.function, .leftParen, .number] := by decide +kernel
  have hc : (Scan.start "max(1 2".toList).halt.place.column = 6 := by decide +kernel
  obtain ⟨-, v, hv⟩ := exists_completion h nofun nofun fun a ha => by
    rw [hk, ← List.mem_inits] at ha
    revert a
    decide
  rw [hc] at hv
  exact ⟨h, v, hv⟩

end RuleCheck
