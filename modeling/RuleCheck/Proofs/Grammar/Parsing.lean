import RuleCheck.Proofs.Grammar.Admitted

/-!
# Proofs — Grammar — admitted rows are derived

A level row that is admitted where items begin is derived by the grammar.  The row is read from the
left.  What has been read of an item says what may come (`Pending`), and with each kind that comes,
or each pair of parentheses with a body, more has been read of it (`Pending.step`, `Pending.pair`);
where a comma may come the item is a chain (`Pending.chain`).

The induction is on how the parentheses match, so that a body is derived before the item that it is
in (`Level.parses`).  With the other direction, **the grammar derives the expressions and nothing
else** (`derives_iff_isExpression`).
-/

namespace RuleCheck

/-- What has been read of an item, and the set that says what may come behind it. -/
inductive Pending : Slots → List Kind → Prop where
  | operand {a : List Kind}
      (h : ∀ b, Derives .bare b ∨ Derives .signed b → Derives .chain (a ++ b)) :
      Pending .afterOperator a
  | plus {a : List Kind} (h : ∀ b, Derives .signed (.plus :: b) → Derives .chain (a ++ b)) :
      Pending .afterPlus a
  | minus {a : List Kind} (h : ∀ b, Derives .signed (.minus :: b) → Derives .chain (a ++ b)) :
      Pending .afterMinus a
  | function {a : List Kind} (h : ∀ b, Derives .bare (.function :: b) → Derives .chain (a ++ b)) :
      Pending .afterFunction a
  /-- A chain that ends with a literal. -/
  | literal {a : List Kind} {k : Kind} (h : Derives .chain a) (hl : a.getLast? = some k)
      (hk : k = .number ∨ k = .string ∨ k = .boolean) : Pending (Slots.start.after k) a
  /-- A chain that ends with a parenthesis, which can be called. -/
  | closed {a : List Kind} (h : ∀ c, Derives .calls c → Derives .chain (a ++ c))
      (hl : a.getLast? = some .rightParen) : Pending .afterRightParen a

/-- The body of a parenthesis that comes where the set says what may come. -/
def Slots.Body (S : Slots) (r : List Kind) : Prop :=
  if .call ∈ S then Derives .callBody r else Derives .groupBody r

namespace Pending

/-- Where a comma may come, a chain has been read. -/
theorem chain {S : Slots} {a : List Kind} (h : Pending S a) (hc : .comma ∈ S) :
    Derives .chain a := by
  cases h with
  | literal h _ _ => exact h
  | closed h _ => simpa using h [] .callsNil
  | operand | plus | minus | function => cases hc

theorem of_literal {a : List Kind} {k : Kind} (h : Derives .chain (a ++ [k]))
    (hk : k = .number ∨ k = .string ∨ k = .boolean) : Pending (Slots.start.after k) (a ++ [k]) :=
  .literal h (by simp) hk

/-- A sign that may come behind a chain joins an operand to it. -/
theorem joins {S : Slots} {a b : List Kind} {k : Kind} (h : Pending S a) (hc : .comma ∈ S)
    (ha : S.admits k) (hk : k = .plus ∨ k = .minus) : joinsBySign a (k :: b) := by
  cases h with
  | operand | plus | minus | function => cases hc
  | closed _ hl => exact .inr (.inl hl)
  | literal _ hl hj =>
      rcases hj with rfl | rfl | rfl
      · rcases hk with rfl | rfl
        · exact .inr (.inr ⟨hl, rfl⟩)
        · cases ha
      · exact .inl hl
      · rcases hk with rfl | rfl <;> cases ha

/-- An operator or a sign behind a chain. -/
theorem step_chain {S : Slots} {a : List Kind} {k : Kind} (h : Pending S a) (hc : .comma ∈ S)
    (ha : S.admits k) (hk : k = .operator ∨ k = .plus ∨ k = .minus) :
    Pending (S.after k) (a ++ [k]) := by
  have hcons : ∀ b, a ++ [k] ++ b = a ++ k :: b := fun b => by simp
  have hch := h.chain hc
  rcases hk with rfl | rfl | rfl
  · refine .operand fun b hb => ?_
    rw [hcons]
    rcases hb with hb | hb
    · exact .chainOperatorBare hch hb
    · exact .chainOperatorSigned hch hb
  · refine .plus fun b hb => ?_
    rw [hcons]
    exact .chainSign hch hb (h.joins hc ha (.inl rfl))
  · refine .minus fun b hb => ?_
    rw [hcons]
    exact .chainSign hch hb (h.joins hc ha (.inr rfl))

/-- Of the kinds that neither nest nor separate, an operator or a sign may follow an operand. -/
theorem joint_of_admits {j k : Kind} (hj : j.endsOperand) (ha : (Slots.start.after j).admits k)
    (hp : k.isParen = false) (hc : k ≠ .comma) (hb : k ≠ .blank) :
    k = .operator ∨ k = .plus ∨ k = .minus := by
  cases k with
  | operator => exact .inl rfl
  | plus => exact .inr (.inl rfl)
  | minus => exact .inr (.inr rfl)
  | leftParen | rightParen | comma | blank => contradiction
  | _ => revert hj ha; cases j <;> decide

/-- **One kind more.** -/
theorem step {S : Slots} {a : List Kind} {k : Kind} (h : Pending S a) (ha : S.admits k)
    (hp : k.isParen = false) (hc : k ≠ .comma) (hb : k ≠ .blank) :
    Pending (S.after k) (a ++ [k]) := by
  have hcons : ∀ b, a ++ [k] ++ b = a ++ k :: b := fun b => by simp
  cases h with
  | operand h =>
      cases k with
      | number => exact of_literal (h _ (.inl .bareNumber)) (.inl rfl)
      | string => exact of_literal (h _ (.inl .bareString)) (.inr (.inl rfl))
      | boolean => exact of_literal (h _ (.inl .bareBoolean)) (.inr (.inr rfl))
      | function => exact .function fun b hb => hcons b ▸ h _ (.inl hb)
      | plus => exact .plus fun b hb => hcons b ▸ h _ (.inr hb)
      | minus => exact .minus fun b hb => hcons b ▸ h _ (.inr hb)
      | operator | var | path => cases ha
      | leftParen | rightParen | comma | blank => contradiction
  | plus h =>
      cases k with
      | number => exact of_literal (h _ .plusNumber) (.inl rfl)
      | string => exact of_literal (h _ .plusString) (.inr (.inl rfl))
      | plus => exact .plus fun b hb => hcons b ▸ h _ (.plusSigned hb)
      | minus => exact .minus fun b hb => hcons b ▸ h _ (.plusSigned hb)
      | operator | var | path | boolean | function => cases ha
      | leftParen | rightParen | comma | blank => contradiction
  | minus h =>
      cases k with
      | number => exact of_literal (h _ .minusNumber) (.inl rfl)
      | leftParen | rightParen | comma | blank => contradiction
      | _ => cases ha
  | function h =>
      cases k with
      | leftParen | rightParen | comma | blank => contradiction
      | _ => cases ha
  | @literal _ j h hl hk =>
      have hj : j.endsOperand := by rcases hk with rfl | rfl | rfl <;> rfl
      have hc' : .comma ∈ Slots.start.after j := by rcases hk with rfl | rfl | rfl <;> rfl
      exact step_chain (.literal h hl hk) hc' ha (joint_of_admits hj ha hp hc hb)
  | closed h hl =>
      have hs := joint_of_admits (j := .rightParen) rfl ha hp hc hb
      exact step_chain (.closed h hl) rfl ha hs

/-- **A pair of parentheses more**, with a body. -/
theorem pair {S : Slots} {a x : List Kind} (h : Pending S a) (ha : S.admits .leftParen)
    (hx : S.Body x) : Pending .afterRightParen (a ++ (.leftParen :: x ++ [.rightParen])) := by
  have hl : (a ++ (Kind.leftParen :: x ++ [Kind.rightParen])).getLast? = some .rightParen := by
    rw [← List.append_assoc, List.getLast?_concat]
  have hcons : ∀ c, a ++ (.leftParen :: x ++ [.rightParen]) ++ c =
      a ++ (.leftParen :: x ++ .rightParen :: c) := fun c => by simp
  refine .closed (fun c hc => hcons c ▸ ?_) hl
  cases h with
  | operand h => exact h _ (.inl (.bareGroup (.group hx hc)))
  | plus h => exact h _ (.plusGroup (.group hx hc))
  | minus h => exact h _ (.minusGroup (.group hx hc))
  | function h => exact h _ (.bareCall hx hc)
  | closed h _ => exact h _ (.callsCons hx hc)
  | literal _ _ hk => rcases hk with rfl | rfl | rfl <;> cases ha

end Pending

/-! ### Reading a row -/

/-- An item where the set says what may come, and what follows it. -/
inductive Items (S : Slots) : List Kind → Prop where
  | chain {a b : List Kind} (ha : Derives .chain a) (hb : Derives .rest b) : Items S (a ++ b)
  | var {b : List Kind} (h : .var ∈ S) (hb : Derives .rest b) : Items S (.var :: b)
  | path {b : List Kind} (h : .path ∈ S) (hb : Derives .rest b) : Items S (.path :: b)

namespace Items

theorem rest {r : List Kind} (h : Items .afterComma r) : Derives .rest (.comma :: r) := by
  cases h with
  | chain ha hb => exact .restChain ha hb
  | var _ hb => exact .restVar hb
  | path _ hb => exact .restPath hb

theorem callBody {r : List Kind} (h : Items .afterCallParen r) : Derives .callBody r := by
  cases h with
  | chain ha hb => exact .callBodyChain ha hb
  | var _ hb => exact .callBodyVar hb
  | path _ hb => exact .callBodyPath hb

theorem groupBody {r : List Kind} (h : Items .afterGroupParen r) : Derives .groupBody r := by
  cases h with
  | chain ha hb => exact .groupBody ha hb
  | var h _ => cases h
  | path h _ => cases h

theorem top {r : List Kind} (h : Items .start r) : Derives .top r := by
  cases h with
  | chain ha hb => exact .topChain ha hb
  | var _ hb => exact .topVar hb
  | path h _ => cases h

end Items

/-- A level row closes the last parenthesis that it opens. -/
theorem Level.getLast?_ne_leftParen {r : List Kind} (h : Level r) :
    r.getLast? ≠ some .leftParen := by
  induction h with
  | nil => nofun
  | @cons k r hk _ ih =>
      rw [List.getLast?_cons]
      cases hr : r.getLast? with
      | none =>
          rintro ⟨⟩
          cases hk
      | some j => exact fun h => ih (hr.trans h)
  | @pair a b _ _ _ ih =>
      rw [List.getLast?_append, List.getLast?_cons]
      cases hb : b.getLast? with
      | none => nofun
      | some j => exact fun h => ih (hb.trans h)

/-- Where a level row may be closed, an item ends. -/
theorem Level.comma_mem_afterRow {S : Slots} {r : List Kind} (h : Level r) (hb : .blank ∉ r)
    (ne : r ≠ []) (hr : .rightParen ∈ S.afterRow r) : .comma ∈ S.afterRow r := by
  obtain ⟨k, hk⟩ : ∃ k, r.getLast? = some k := ⟨_, List.getLast?_eq_some_getLast ne⟩
  have hl : k ≠ .leftParen := by
    rintro rfl
    exact h.getLast?_ne_leftParen hk
  have hkb : k ≠ .blank := by
    rintro rfl
    exact hb (List.mem_of_getLast? hk)
  rw [S.afterRow_eq_of_getLast? hk hl hkb] at hr ⊢
  cases k with
  | leftParen | blank => contradiction
  | number | string | boolean | var | path | rightParen => rfl
  | _ => cases hr

/-- How a row is read to its end: behind a part of an item, behind a variable or a path, and where
items begin. -/
structure Parses (r : List Kind) : Prop where
  pending : ∀ {S : Slots} {a : List Kind}, Pending S a → S.AdmitsRow r → .comma ∈ S.afterRow r →
    ∃ c b, a ++ r = c ++ b ∧ Derives .chain c ∧ Derives .rest b
  reference : Slots.afterReference.AdmitsRow r → .comma ∈ Slots.afterReference.afterRow r →
    Derives .rest r
  items : ∀ {S : Slots}, S.Opens → S.AdmitsRow r → .comma ∈ S.afterRow r → Items S r

namespace Parses

/-- Behind a comma. -/
theorem comma {r : List Kind} (h : Parses r) (ha : Slots.afterComma.AdmitsRow r)
    (hc : .comma ∈ Slots.afterComma.afterRow r) : Derives .rest (.comma :: r) :=
  (h.items Slots.opens_afterComma ha hc).rest

/-- A row that begins with an operand is read where items begin as it is read behind an operator. -/
theorem items_of_operand {k : Kind} {r : List Kind}
    (h : ∀ {S : Slots} {a : List Kind}, Pending S a → S.AdmitsRow (k :: r) →
      .comma ∈ S.afterRow (k :: r) →
      ∃ c b, a ++ k :: r = c ++ b ∧ Derives .chain c ∧ Derives .rest b)
    {S : Slots} (hS : S.Opens) (hb : k ≠ .blank) (hk : Slots.afterOperator.admits k)
    (ha : (S.after k).AdmitsRow r) (hc : .comma ∈ (S.after k).afterRow r) : Items S (k :: r) := by
  have he : S.after k = Slots.afterOperator.after k := by
    rw [Slots.after_eq_of_opens hS hb, Slots.after_eq_of_opens Slots.opens_afterOperator hb]
  have hp : Pending .afterOperator [] := by
    refine .operand fun b hb => ?_
    rcases hb with hb | hb
    · exact .chainBare hb
    · exact .chainSigned hb
  rw [he] at ha hc
  obtain ⟨c, b, heq, hch, hr⟩ := h hp ⟨hk, ha⟩ hc
  rw [List.nil_append] at heq
  exact heq ▸ .chain hch hr

theorem nil : Parses [] where
  pending h _ hc := ⟨_, [], rfl, h.chain hc, .restNil⟩
  reference _ _ := .restNil
  items hS _ hc := by
    rcases hS.of_admits .comma ((Slots.admits_iff_mem .comma rfl rfl).mpr hc) with h | h | h | h <;>
      cases h

theorem cons {k : Kind} {r : List Kind} (h : Parses r) (hp : k.isParen = false)
    (hb : k ≠ .blank) : Parses (k :: r) := by
  have pending : ∀ {S : Slots} {a : List Kind}, Pending S a → S.AdmitsRow (k :: r) →
      .comma ∈ S.afterRow (k :: r) →
      ∃ c b, a ++ k :: r = c ++ b ∧ Derives .chain c ∧ Derives .rest b := by
    intro S a hP ha hc
    -- a comma ends the item, and all else goes on with it
    by_cases hk : k = .comma
    · subst hk
      have hm : .comma ∈ S := (Slots.admits_iff_mem .comma rfl rfl).mp ha.1
      exact ⟨a, _, rfl, hP.chain hm, h.comma ha.2 hc⟩
    · have := h.pending (hP.step ha.1 hp hk hb) ha.2 hc
      simpa using this
  refine ⟨pending, fun ha hc => ?_, fun {S} hS ha hc => ?_⟩
  · -- nothing else may follow a variable or a path
    cases k with
    | comma => exact h.comma ha.2 hc
    | leftParen | rightParen | blank => contradiction
    | _ => cases ha.1
  · rcases hS.of_admits k ha.1 with hk | rfl | rfl | rfl
    · exact items_of_operand pending hS hb hk ha.2 hc
    · exact .var ((Slots.admits_iff_mem .var rfl rfl).mp ha.1) (h.reference ha.2 hc)
    · exact .path ((Slots.admits_iff_mem .path rfl rfl).mp ha.1) (h.reference ha.2 hc)
    · cases hp

/-- Between parentheses a row is a body. -/
theorem body {S : Slots} {r : List Kind} (h : Parses r) (hb : .blank ∉ r) (hl : Level r)
    (ha : (S.after .leftParen).AdmitsRow r) (hr : .rightParen ∈ (S.after .leftParen).afterRow r) :
    S.Body r := by
  rw [Slots.after_leftParen] at ha hr
  rw [Slots.Body]
  by_cases hc : .call ∈ S
  · rw [if_pos hc] at ha hr ⊢
    by_cases ne : r = []
    · exact ne ▸ .callBodyNil
    · exact (h.items Slots.opens_afterCallParen ha (hl.comma_mem_afterRow hb ne hr)).callBody
  · rw [if_neg hc] at ha hr ⊢
    have ne : r ≠ [] := by
      rintro rfl
      cases hr
    exact (h.items Slots.opens_afterGroupParen ha (hl.comma_mem_afterRow hb ne hr)).groupBody

theorem pair {x y : List Kind} (hx : Parses x) (hy : Parses y) (hb : .blank ∉ x) (hl : Level x) :
    Parses (.leftParen :: x ++ .rightParen :: y) := by
  have pending : ∀ {S : Slots} {a : List Kind}, Pending S a →
      S.AdmitsRow (.leftParen :: (x ++ .rightParen :: y)) →
      .comma ∈ S.afterRow (.leftParen :: (x ++ .rightParen :: y)) →
      ∃ c b, a ++ .leftParen :: (x ++ .rightParen :: y) = c ++ b ∧
        Derives .chain c ∧ Derives .rest b := by
    intro S a hP ha hc
    simp only [Slots.admitsRow_cons, Slots.admitsRow_append] at ha
    obtain ⟨hp, hax, hr, hay⟩ := ha
    have hr' : .rightParen ∈ (S.after .leftParen).afterRow x :=
      (Slots.admits_iff_mem .rightParen rfl rfl).mp hr
    have hc' : .comma ∈ Slots.afterRightParen.afterRow y := by
      simp only [Slots.afterRow_cons, Slots.afterRow_append] at hc
      exact hc
    have := hy.pending (hP.pair hp (hx.body hb hl hax hr')) hay hc'
    simpa using this
  refine ⟨pending, fun ha _ => ?_, fun {S} hS ha hc => ?_⟩
  · cases ha.1
  · exact items_of_operand pending hS (by decide) rfl ha.2 hc

end Parses

/-- **A level row is read to its end.** -/
theorem Level.parses {r : List Kind} (h : Level r) (hb : .blank ∉ r) : Parses r := by
  induction h with
  | nil => exact .nil
  | cons hk _ ih =>
      simp only [List.mem_cons, not_or] at hb
      exact (ih hb.2).cons hk (Ne.symm hb.1)
  | pair ha _ iha ihb =>
      simp only [List.cons_append, List.mem_cons, List.mem_append, not_or] at hb
      exact .pair (iha hb.2.1) (ihb hb.2.2.2) hb.2.1 ha

/-- **The grammar derives the expressions and nothing else.** -/
theorem derives_iff_isExpression {r : List Kind} (hb : .blank ∉ r) :
    Derives .top r ↔ IsExpression r := by
  refine ⟨Derives.isExpression, fun h => ?_⟩
  obtain ⟨ha, hbal, hend⟩ := h
  have hc := (Slots.comma_mem_afterRow_start hb).mpr hend
  exact (((level_iff_balanced.mpr hbal).parses hb).items Slots.opens_start ha hc).top

end RuleCheck
