import RuleCheck.Grammar.Derivation
import RuleCheck.Proofs.Grammar.Level
import RuleCheck.Proofs.Grammar.Row

/-!
# Proofs — Grammar — derived rows are admitted

What a phrase derives is admitted wherever the phrase may begin, and leaves it complete (`Fits`,
`Derives.fits`); and its parentheses match (`Derives.level`).  So **what the grammar derives is an
expression** (`Derives.isExpression`).
-/

namespace RuleCheck

/-- The kinds that an operand can end with. -/
def Kind.endsOperand : Kind → Bool
  | .number | .string | .boolean | .rightParen => true
  | _ => false

theorem Kind.mayEnd_of_endsOperand {k : Kind} (h : k.endsOperand) : k.mayEnd := by
  cases k with
  | number | string | boolean | rightParen => rfl
  | _ => cases h

/-- A row that ends with an operand. -/
def EndsOperand (r : List Kind) : Prop := ∃ k, r.getLast? = some k ∧ k.endsOperand

theorem EndsOperand.append {a b : List Kind} (h : EndsOperand b) : EndsOperand (a ++ b) := by
  obtain ⟨k, hk, he⟩ := h
  exact ⟨k, by rw [List.getLast?_append, hk]; rfl, he⟩

theorem EndsOperand.afterRow {r : List Kind} (h : EndsOperand r) (S : Slots) :
    ∃ k, r.getLast? = some k ∧ k.endsOperand ∧ S.afterRow r = Slots.start.after k := by
  obtain ⟨k, hk, he⟩ := h
  refine ⟨k, hk, he, S.afterRow_eq_of_getLast? hk ?_ ?_⟩ <;> rintro rfl <;> cases he

theorem EndsOperand.closes {r : List Kind} (h : EndsOperand r) (S : Slots) :
    (S.afterRow r).Closes := by
  obtain ⟨k, -, he, hS⟩ := h.afterRow S
  exact hS ▸ Slots.closes_after _ (Kind.mayEnd_of_endsOperand he)

/-- Behind an operand an operator may come. -/
theorem EndsOperand.admits_operator {r : List Kind} (h : EndsOperand r) (S : Slots) :
    (S.afterRow r).admits .operator := by
  obtain ⟨k, -, he, hS⟩ := h.afterRow S
  rw [hS]
  cases k with
  | number | string | boolean | rightParen => rfl
  | _ => cases he

/-- What is admitted, and what it leaves, where a phrase derives a row. -/
def Fits : Phrase → List Kind → Prop
  | .top,       r => Slots.start.AdmitsRow r ∧ (Slots.start.afterRow r).Closes
  | .rest,      r => ∀ S : Slots, S.Closes → S.AdmitsRow r ∧ (S.afterRow r).Closes
  | .callBody,  r =>
      Slots.afterCallParen.AdmitsRow r ∧ .rightParen ∈ Slots.afterCallParen.afterRow r
  | .groupBody, r =>
      Slots.afterGroupParen.AdmitsRow r ∧ .rightParen ∈ Slots.afterGroupParen.afterRow r
  | .calls,     r => Slots.afterRightParen.AdmitsRow r ∧ (r = [] ∨ r.getLast? = some .rightParen)
  | .group,     r =>
      ∀ S : Slots, .leftParen ∈ S → .call ∉ S → S.AdmitsRow r ∧ r.getLast? = some .rightParen
  | .signed,    r => ∀ S : Slots, (∀ k ∈ r.head?, S.admits k) → S.AdmitsRow r ∧ EndsOperand r
  | .bare,      r => ∀ S : Slots, S.Opens → S.AdmitsRow r ∧ EndsOperand r
  | .chain,     r => ∀ S : Slots, S.Opens → S.AdmitsRow r ∧ EndsOperand r

theorem Derives.head?_of_signed {r : List Kind} (h : Derives .signed r) :
    r.head? = some .plus ∨ r.head? = some .minus := by
  cases h with
  | plusNumber | plusString | plusGroup | plusSigned => exact .inl rfl
  | minusNumber | minusGroup => exact .inr rfl

namespace Fits

/-- An item and what follows it. -/
theorem item {S : Slots} {a b : List Kind} (ha : S.AdmitsRow a ∧ (S.afterRow a).Closes)
    (hb : Fits .rest b) : S.AdmitsRow (a ++ b) ∧ (S.afterRow (a ++ b)).Closes := by
  obtain ⟨hb, hc⟩ := hb _ ha.2
  exact ⟨by simpa using ⟨ha.1, hb⟩, by simpa using hc⟩

/-- A kind that is an item of its own. -/
theorem single {S : Slots} {k : Kind} (hS : S.admits k) (hk : k.mayEnd) :
    S.AdmitsRow [k] ∧ (S.afterRow [k]).Closes :=
  ⟨⟨hS, trivial⟩, S.closes_after hk⟩

theorem chain_item {S : Slots} {a : List Kind} (hS : S.Opens) (ha : Fits .chain a) :
    S.AdmitsRow a ∧ (S.afterRow a).Closes := by
  obtain ⟨ha, he⟩ := ha S hS
  exact ⟨ha, he.closes S⟩

theorem rest_cons {a b : List Kind}
    (ha : Slots.afterComma.AdmitsRow a ∧ (Slots.afterComma.afterRow a).Closes)
    (hb : Fits .rest b) : Fits .rest (.comma :: a ++ b) := by
  intro S hS
  obtain ⟨h, hc⟩ := item ha hb
  exact ⟨⟨hS.admits_comma, h⟩, hc⟩

/-- A body in parentheses and calls behind it. -/
theorem enclosed {S : Slots} {a b : List Kind} (hp : S.admits .leftParen)
    (ha : (S.after .leftParen).AdmitsRow a) (hr : .rightParen ∈ (S.after .leftParen).afterRow a)
    (hb : Fits .calls b) :
    S.AdmitsRow (.leftParen :: a ++ .rightParen :: b) ∧
      (.leftParen :: a ++ .rightParen :: b).getLast? = some Kind.rightParen := by
  obtain ⟨hb, hl⟩ := hb
  have hr' : ((S.after .leftParen).afterRow a).admits .rightParen :=
    (Slots.admits_iff_mem .rightParen rfl rfl).mpr hr
  refine ⟨⟨hp, by simpa using ⟨ha, hr', hb⟩⟩, ?_⟩
  rw [List.getLast?_append, List.getLast?_cons]
  rcases hl with rfl | hl
  · rfl
  · simp [hl]

/-- A sign before an operand that it may be before. -/
theorem sign {k : Kind} {a : List Kind} {S : Slots} (hS : ∀ j ∈ (k :: a).head?, S.admits j)
    (ha : (S.after k).AdmitsRow a) (he : EndsOperand a) :
    S.AdmitsRow (k :: a) ∧ EndsOperand (k :: a) :=
  ⟨⟨hS k rfl, ha⟩, he.append (a := [k])⟩

/-- A signed operand where both signs may come. -/
theorem signed {S : Slots} {a : List Kind} (h : Derives .signed a) (ha : Fits .signed a)
    (hp : S.admits .plus) (hm : S.admits .minus) : S.AdmitsRow a ∧ EndsOperand a := by
  refine ha S fun k hk => ?_
  rcases h.head?_of_signed with hs | hs
  · obtain rfl := Option.some.inj (hs.symm.trans hk)
    exact hp
  · obtain rfl := Option.some.inj (hs.symm.trans hk)
    exact hm

end Fits

/-- **What a phrase derives is admitted** where the phrase may begin, and leaves it complete. -/
theorem Derives.fits {φ : Phrase} {r : List Kind} (h : Derives φ r) : Fits φ r := by
  induction h with
  | topChain _ _ iha ihb => exact Fits.item (Fits.chain_item Slots.opens_start iha) ihb
  | topVar _ ihb => exact Fits.item (Fits.single (k := .var) rfl rfl) ihb
  | restNil => exact fun S hS => ⟨trivial, hS⟩
  | restChain _ _ iha ihb => exact Fits.rest_cons (Fits.chain_item Slots.opens_afterComma iha) ihb
  | restVar _ ihb => exact Fits.rest_cons (Fits.single (k := .var) rfl rfl) ihb
  | restPath _ ihb => exact Fits.rest_cons (Fits.single (k := .path) rfl rfl) ihb
  | callBodyNil => exact ⟨trivial, rfl⟩
  | callBodyChain _ _ iha ihb =>
      obtain ⟨h, hc⟩ := Fits.item (Fits.chain_item Slots.opens_afterCallParen iha) ihb
      exact ⟨h, hc.rightParen_mem⟩
  | callBodyVar _ ihb =>
      obtain ⟨h, hc⟩ := Fits.item (Fits.single (S := Slots.afterCallParen) (k := .var) rfl rfl) ihb
      exact ⟨h, hc.rightParen_mem⟩
  | callBodyPath _ ihb =>
      obtain ⟨h, hc⟩ := Fits.item (Fits.single (S := Slots.afterCallParen) (k := .path) rfl rfl) ihb
      exact ⟨h, hc.rightParen_mem⟩
  | groupBody _ _ iha ihb =>
      obtain ⟨h, hc⟩ := Fits.item (Fits.chain_item Slots.opens_afterGroupParen iha) ihb
      exact ⟨h, hc.rightParen_mem⟩
  | callsNil => exact ⟨trivial, .inl rfl⟩
  | callsCons _ _ iha ihb =>
      obtain ⟨h, hl⟩ := Fits.enclosed (S := Slots.afterRightParen) rfl iha.1 iha.2 ihb
      exact ⟨h, .inr hl⟩
  | group _ _ iha ihb =>
      intro S hp hc
      have hS : S.after .leftParen = Slots.afterGroupParen := if_neg hc
      have hp' : S.admits .leftParen := (Slots.admits_iff_mem .leftParen rfl rfl).mpr hp
      exact Fits.enclosed hp' (hS ▸ iha.1) (hS ▸ iha.2) ihb
  | bareNumber =>
      exact fun S hS => ⟨⟨hS.admits_of _ rfl, trivial⟩, _, rfl, rfl⟩
  | bareString =>
      exact fun S hS => ⟨⟨hS.admits_of _ rfl, trivial⟩, _, rfl, rfl⟩
  | bareBoolean =>
      exact fun S hS => ⟨⟨hS.admits_of _ rfl, trivial⟩, _, rfl, rfl⟩
  | bareGroup _ iha =>
      intro S hS
      have hp : .leftParen ∈ S :=
        (Slots.admits_iff_mem .leftParen rfl rfl).mp (hS.admits_of .leftParen rfl)
      obtain ⟨h, hl⟩ := iha S hp hS.call_notMem
      exact ⟨h, _, hl, rfl⟩
  | bareCall _ _ iha ihb =>
      intro S hS
      obtain ⟨h, hl⟩ := Fits.enclosed (S := Slots.afterFunction) rfl iha.1 iha.2 ihb
      exact ⟨⟨hS.admits_of _ rfl, h⟩, EndsOperand.append (a := [.function]) ⟨_, hl, rfl⟩⟩
  | plusNumber => exact fun S hS => Fits.sign hS ⟨rfl, trivial⟩ ⟨_, rfl, rfl⟩
  | plusString => exact fun S hS => Fits.sign hS ⟨rfl, trivial⟩ ⟨_, rfl, rfl⟩
  | plusGroup _ iha =>
      intro S hS
      obtain ⟨h, hl⟩ := iha Slots.afterPlus rfl nofun
      exact Fits.sign hS h ⟨_, hl, rfl⟩
  | plusSigned ha iha =>
      intro S hS
      obtain ⟨h, he⟩ := Fits.signed ha iha (S := Slots.afterPlus) rfl rfl
      exact Fits.sign hS h he
  | minusNumber => exact fun S hS => Fits.sign hS ⟨rfl, trivial⟩ ⟨_, rfl, rfl⟩
  | minusGroup _ iha =>
      intro S hS
      obtain ⟨h, hl⟩ := iha Slots.afterMinus rfl nofun
      exact Fits.sign hS h ⟨_, hl, rfl⟩
  | chainBare _ iha => exact iha
  | chainSigned ha iha =>
      exact fun S hS => Fits.signed ha iha (hS.admits_of _ rfl) (hS.admits_of _ rfl)
  | chainOperatorBare _ _ iha ihb =>
      intro S hS
      obtain ⟨ha, he⟩ := iha S hS
      obtain ⟨hb, he'⟩ := ihb _ Slots.opens_afterOperator
      exact ⟨by simpa using ⟨ha, he.admits_operator S, hb⟩, (he'.append (a := [.operator])).append⟩
  | chainOperatorSigned _ hb iha ihb =>
      intro S hS
      obtain ⟨ha, he⟩ := iha S hS
      obtain ⟨hb, he'⟩ := Fits.signed hb ihb (S := Slots.afterOperator) rfl rfl
      exact ⟨by simpa using ⟨ha, he.admits_operator S, hb⟩, (he'.append (a := [.operator])).append⟩
  | @chainSign a b _ hb hj iha ihb =>
      intro S hS
      obtain ⟨ha, he⟩ := iha S hS
      have hs : (S.afterRow a).AdmitsRow b ∧ EndsOperand b := by
        rcases hj with hl | hl | ⟨hl, hp⟩
        · rw [S.afterRow_eq_of_getLast? hl nofun nofun]
          exact Fits.signed hb ihb rfl rfl
        · rw [S.afterRow_eq_of_getLast? hl nofun nofun]
          exact Fits.signed hb ihb rfl rfl
        · -- behind a number a minus sign may not come
          rw [S.afterRow_eq_of_getLast? hl nofun nofun]
          refine ihb _ fun k hk => ?_
          obtain rfl := Option.some.inj (hp.symm.trans hk)
          rfl
      exact ⟨by simpa using ⟨ha, hs.1⟩, hs.2.append⟩

/-- The parentheses of what a phrase derives match. -/
theorem Derives.level {φ : Phrase} {r : List Kind} (h : Derives φ r) : Level r := by
  induction h with
  | restNil | callBodyNil | callsNil => exact .nil
  | bareNumber | bareString | bareBoolean => exact .cons rfl .nil
  | plusNumber | plusString | minusNumber =>
      exact .cons rfl (.cons rfl .nil)
  | bareGroup _ ih | chainBare _ ih | chainSigned _ ih => exact ih
  | topVar _ ih | callBodyVar _ ih | callBodyPath _ ih | plusGroup _ ih | plusSigned _ ih
  | minusGroup _ ih =>
      exact .cons rfl ih
  | restVar _ ih | restPath _ ih =>
      exact .cons rfl (.cons rfl ih)
  | topChain _ _ iha ihb | callBodyChain _ _ iha ihb | groupBody _ _ iha ihb
  | chainSign _ _ _ iha ihb => exact iha.append ihb
  | restChain _ _ iha ihb => exact .cons rfl (iha.append ihb)
  | callsCons _ _ iha ihb | group _ _ iha ihb => exact .pair iha ihb
  | bareCall _ _ iha ihb => exact .cons rfl (.pair iha ihb)
  | chainOperatorBare _ _ iha ihb | chainOperatorSigned _ _ iha ihb =>
      exact iha.append (.cons rfl ihb)

theorem Derives.blank_notMem {φ : Phrase} {r : List Kind} (h : Derives φ r) : .blank ∉ r := by
  induction h <;> simp_all

/-- **What the grammar derives is an expression.** -/
theorem Derives.isExpression {r : List Kind} (h : Derives .top r) : IsExpression r := by
  obtain ⟨ha, hc⟩ := h.fits
  exact ⟨ha, level_iff_balanced.mp h.level,
    (Slots.comma_mem_afterRow_start h.blank_notMem).mp hc.comma_mem⟩

end RuleCheck
