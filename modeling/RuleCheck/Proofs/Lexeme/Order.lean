import Mathlib.Data.List.Basic
import Mathlib.Data.Set.Insert
import RuleCheck.Proofs.Lexeme.Recognition

/-!
# Proofs — Lexeme — the order of forms

At most two forms find anything at a place, and then they are an operator and a blank, or a truth
value and a name (`Form.found_eq`).  So **the order in which forms are tried matters to these two
pairs only** (`Form.readFirst_eq_read`), and where one of them is turned round some text is read in
another way (`Form.recognizeFirst_ne_of_shadowed`).
-/

namespace RuleCheck

namespace Form

variable {f g h : Form} {fs : List Form} {t : Text}

/-! ### Forms that find something at one place -/

theorem eq_or_overlap_of_read (hf : f.read t ≠ .nothing) (hg : g.read t ≠ .nothing) :
    f = g ∨ Shadows f g ∨ Shadows g f := by
  cases t with
  | nil => exact absurd f.read_nil hf
  | cons c t => exact eq_or_overlap (mayBegin_of_read hf) (mayBegin_of_read hg)

/-- Where a form finds something that shadows another, no third one does. -/
theorem eq_or_eq_of_shadows (hs : Shadows f g) (hf : f.read t ≠ .nothing)
    (hh : h.read t ≠ .nothing) : h = f ∨ h = g := by
  rcases eq_or_overlap_of_read hh hf with rfl | s | s
  · exact .inl rfl
  · cases hs <;> cases s
  · cases hs <;> cases s <;> exact .inr rfl

/-- The forms that find anything at a place. -/
def found (p : Place) : Set Form := {f | f.recognize p ≠ .ok none}

theorem mem_found_iff {p : Place} : f ∈ found p ↔ f.read p.ahead ≠ .nothing := by
  rw [found, Set.mem_ofPred_eq, recognize_eq]
  cases f.read p.ahead <;> simp [Reading.outcome]

theorem found_of_shadows {p : Place} (hs : Shadows f g) (hf : f ∈ found p) (hg : g ∈ found p) :
    found p = {f, g} := by
  ext h
  constructor
  · intro hh
    exact eq_or_eq_of_shadows hs (mem_found_iff.mp hf) (mem_found_iff.mp hh)
  · rintro (rfl | rfl)
    · exact hf
    · exact hg

/-- **At most two forms find anything at a place**, and then one shadows the other. -/
theorem found_eq (p : Place) :
    found p = ∅ ∨ (∃ f, found p = {f}) ∨ ∃ f g, Shadows f g ∧ found p = {f, g} := by
  rcases (found p).eq_empty_or_nonempty with h | ⟨f, hf⟩
  · exact .inl h
  · by_cases ho : ∃ g h, Shadows g h ∧ g ∈ found p ∧ h ∈ found p
    · obtain ⟨g, h, hs, hg, hh⟩ := ho
      exact .inr (.inr ⟨g, h, hs, found_of_shadows hs hg hh⟩)
    · refine .inr (.inl ⟨f, ?_⟩)
      ext g
      constructor
      · intro hg
        rcases eq_or_overlap_of_read (mem_found_iff.mp hg) (mem_found_iff.mp hf) with h | s | s
        · exact h
        · exact absurd ⟨g, f, s, hg, hf⟩ ho
        · exact absurd ⟨f, g, s, hf, hg⟩ ho
      · rintro rfl
        exact hf

/-! ### Forms in another order -/

/-- What is read first is what is found by a form with none before it that finds anything. -/
theorem exists_first (h : ∃ f ∈ fs, f.read t ≠ .nothing) :
    ∃ gs f rest, fs = gs ++ f :: rest ∧ (∀ g ∈ gs, g.read t = .nothing) ∧ f.read t ≠ .nothing ∧
      readFirst fs t = f.read t := by
  induction fs with
  | nil => simp at h
  | cons f fs ih =>
      by_cases hf : f.read t = .nothing
      · obtain ⟨gs, g, rest, rfl, hgs, hg, hr⟩ := ih (by simpa [hf] using h)
        refine ⟨f :: gs, g, rest, rfl, List.forall_mem_cons.mpr ⟨hf, hgs⟩, hg, ?_⟩
        rw [readFirst, hf]
        exact hr
      · have hn := List.forall_mem_nil fun g : Form => g.read t = .nothing
        exact ⟨[], f, fs, rfl, hn, hf, readFirst_append hn hf⟩

theorem mem_of_idxOf_lt {gs rest : List Form}
    (h : (gs ++ f :: rest).idxOf g < (gs ++ f :: rest).idxOf f) : g ∈ gs := by
  by_contra hg
  rw [List.idxOf_append_of_notMem hg] at h
  by_cases hf : f ∈ gs
  · rw [List.idxOf_append_of_mem hf] at h
    have := List.idxOf_lt_length_of_mem hf
    omega
  · rw [List.idxOf_append_of_notMem hf, List.idxOf_cons_self] at h
    omega

/-- **What is read does not depend on the order**, as long as each form comes before the one that it
shadows. -/
theorem readFirst_eq_read (hm : ∀ f, f ∈ fs)
    (ho : ∀ f g, Shadows f g → fs.idxOf f < fs.idxOf g) (t : Text) :
    readFirst fs t = RuleCheck.read t := by
  by_cases hn : ∃ f ∈ fs, f.read t ≠ .nothing
  · obtain ⟨gs, f, rest, rfl, hgs, hf, hr⟩ := exists_first hn
    rw [hr, read_eq_of_form hf fun g hg => hgs g (mem_of_idxOf_lt (ho g f hg))]
  · have hn : ∀ f : Form, f.read t = .nothing := fun f => by
      by_contra hf
      exact hn ⟨f, hm f, hf⟩
    rw [RuleCheck.read, readFirst_eq_nothing fun f _ => hn f, readFirst_eq_nothing fun f _ => hn f]

/-- A form that comes before the one that shadows it is read instead of it. -/
theorem readFirst_of_shadowed (hm : ∀ f, f ∈ fs) (hs : Shadows f g)
    (hgf : fs.idxOf g < fs.idxOf f) (hf : f.read t ≠ .nothing) (hg : g.read t ≠ .nothing) :
    readFirst fs t = g.read t := by
  obtain ⟨gs, h, rest, rfl, hgs, hh, hr⟩ := exists_first ⟨f, hm f, hf⟩
  rcases eq_or_eq_of_shadows hs hf hh with rfl | rfl
  · exact absurd (hgs g (mem_of_idxOf_lt hgf)) hg
  · exact hr

/-- In some text a form and the one that it shadows find different things. -/
theorem exists_text_of_shadows (hs : Shadows f g) :
    ∃ t, f.read t ≠ .nothing ∧ g.read t ≠ .nothing ∧
      (g.read t).outcome 0 ≠ (RuleCheck.read t).outcome 0 := by
  cases hs with
  | blank => exact ⟨" or x".toList, by decide, by decide, by decide⟩
  | function => exact ⟨"true".toList, by decide, by decide, by decide⟩

theorem exists_found_eq (hs : Shadows f g) : ∃ p, found p = {f, g} := by
  obtain ⟨t, hf, hg, -⟩ := exists_text_of_shadows hs
  exact ⟨.start t, found_of_shadows hs (mem_found_iff.mpr hf) (mem_found_iff.mpr hg)⟩

theorem recognizeFirst_ne_of_shadowed (hm : ∀ f, f ∈ fs) (hs : Shadows f g)
    (hgf : fs.idxOf g < fs.idxOf f) :
    ∃ t, recognizeFirst (.start t) fs ≠ RuleCheck.recognize (.start t) := by
  obtain ⟨t, hf, hg, hne⟩ := exists_text_of_shadows hs
  refine ⟨t, ?_⟩
  rw [recognizeFirst_eq, RuleCheck.recognize_eq, Place.ahead_start,
    readFirst_of_shadowed hm hs hgf hf hg]
  exact hne

end Form

/-- **Two pairs of forms overlap**, and the order of forms matters to these only. -/
theorem recognizeFirst_of_perm :
    (∀ p : Place, Form.found p = ∅ ∨ (∃ f, Form.found p = {f}) ∨
        Form.found p = {.operator, .blank} ∨ Form.found p = {.boolean, .function}) ∧
      ((∃ p, Form.found p = {.operator, .blank}) ∧ ∃ p, Form.found p = {.boolean, .function}) ∧
      ∀ fs : List Form, fs.Perm Form.precedence →
        (fs.idxOf .operator < fs.idxOf .blank → fs.idxOf .boolean < fs.idxOf .function →
          ∀ p, Form.recognizeFirst p fs = recognize p) ∧
        (fs.idxOf .blank < fs.idxOf .operator ∨ fs.idxOf .function < fs.idxOf .boolean →
          ∃ t, Form.recognizeFirst (.start t) fs ≠ recognize (.start t)) := by
  refine ⟨fun p => ?_, ⟨Form.exists_found_eq .blank, Form.exists_found_eq .function⟩,
    fun fs hp => ?_⟩
  · rcases Form.found_eq p with h | h | ⟨f, g, hs, h⟩
    · exact .inl h
    · exact .inr (.inl h)
    · cases hs with
      | blank => exact .inr (.inr (.inl h))
      | function => exact .inr (.inr (.inr h))
  · have hm : ∀ f, f ∈ fs := fun f => hp.mem_iff.mpr f.mem_precedence
    refine ⟨fun ho hb p => ?_, ?_⟩
    · have hs : ∀ f g, Form.Shadows f g → fs.idxOf f < fs.idxOf g := by
        rintro f g (_ | _)
        · exact ho
        · exact hb
      rw [Form.recognizeFirst_eq, Form.readFirst_eq_read hm hs, recognize_eq]
    · rintro (h | h)
      · exact Form.recognizeFirst_ne_of_shadowed hm .blank h
      · exact Form.recognizeFirst_ne_of_shadowed hm .function h

/-- The operators last but for the blank, and all forms from the last to the first. -/
theorem recognizeFirst_of_perm_operator_late :
    let fs : List Form := [.boolean, .path, .var, .comma, .rightParen, .leftParen, .function,
      .string, .number, .sign, .operator, .blank]
    let gs := Form.precedence.reverse
    (fs.Perm Form.precedence ∧ fs.idxOf .operator < fs.idxOf .blank ∧
        fs.idxOf .boolean < fs.idxOf .function ∧
        Form.recognizeFirst (.start " or x".toList) fs = .ok (some ⟨.operator .or, 4⟩)) ∧
      gs.Perm Form.precedence ∧ gs.idxOf .blank < gs.idxOf .operator ∧
        ∃ t, Form.recognizeFirst (.start t) gs ≠ recognize (.start t) := by
  intro fs gs
  have hp : fs.Perm Form.precedence := by decide
  have ho : fs.idxOf .operator < fs.idxOf .blank := by decide
  have hb : fs.idxOf .boolean < fs.idxOf .function := by decide
  have hp' : gs.Perm Form.precedence := List.reverse_perm _
  have ho' : gs.idxOf .blank < gs.idxOf .operator := by decide
  obtain ⟨-, -, hr⟩ := recognizeFirst_of_perm
  exact ⟨⟨hp, ho, hb, ((hr fs hp).1 ho hb _).trans (by decide)⟩, hp', ho', (hr gs hp').2 (.inl ho')⟩

end RuleCheck
