import RuleCheck.Proofs.Lexeme.Escape
import RuleCheck.Proofs.Text.Escape

/-!
# Proofs — Lexeme — the units of a body

A unit is a character other than a backslash, a backslash and a letter or sign, or a backslash with
`u` and the four digits of a code point (`isUnit_iff`).  No unit begins another
(`IsUnit.eq_of_append`), so a body consists of units in one way at most (`Consists.eq`).

**Decoding peels units from the left.**  It succeeds exactly on the bodies that consist of units,
with the characters that these stand for (`decode_eq_ok_iff`), and else it stops at the first
backslash that begins no unit (`decode_eq_error_iff`).
-/

namespace RuleCheck.Literal

/-! ### Units by their characters -/

/-- The letters and signs that mean something behind a backslash, each with what it means. -/
def letters : List (Char × Char) :=
  [('\'', '\''), ('\\', '\\'), ('/', '/'), ('b', '\x08'), ('f', '\x0c'), ('n', '\n'), ('r', '\r'),
    ('t', '\t')]

theorem meaning?_eq_some_iff {c x : Char} : meaning? c = some x ↔ (c, x) ∈ letters := by
  rw [meaning?]
  split
  · rename_i hc
    subst hc
    simp [letters, eq_comm]
  · rw [Text.letter?.eq_def]
    split <;> simp_all [letters, eq_comm]

theorem isUnit_iff {u : Text} {x : Char} :
    IsUnit u x ↔ u = [x] ∧ x ≠ '\\' ∨ (∃ c, u = ['\\', c] ∧ (c, x) ∈ letters) ∨
      ∃ digits, u = '\\' :: 'u' :: digits ∧ Text.IsCodePoint digits x := by
  constructor
  · intro h
    cases h with
    | plain h => exact .inl ⟨rfl, h⟩
    | letter h => exact .inr (.inl ⟨_, rfl, meaning?_eq_some_iff.mp h⟩)
    | code h => exact .inr (.inr ⟨_, rfl, Text.codePoint?_eq_some_iff.mp h⟩)
  · rintro (⟨rfl, h⟩ | ⟨c, rfl, h⟩ | ⟨digits, rfl, h⟩)
    · exact .plain h
    · exact .letter (meaning?_eq_some_iff.mpr h)
    · obtain ⟨a, b, c, d, rfl⟩ : ∃ a b c d, digits = [a, b, c, d] := List.length_eq_four.mp h.1
      exact .code (Text.codePoint?_eq_some_iff.mpr h)

theorem IsUnit.ne_nil {u : Text} {x : Char} (h : IsUnit u x) : u ≠ [] := by
  cases h <;> exact List.cons_ne_nil _ _

/-- A backslash with `u` means nothing without the digits. -/
theorem ne_u_of_meaning? {c x : Char} (h : meaning? c = some x) : c ≠ 'u' := by
  rintro rfl
  cases h

/-- **No unit begins another**, and a unit stands for one character. -/
theorem IsUnit.eq_of_append {u v s t : Text} {x y : Char} (hu : IsUnit u x) (hv : IsUnit v y)
    (h : u ++ s = v ++ t) : u = v ∧ x = y := by
  cases hu with
  | plain hx =>
      cases hv with
      | plain => simp_all
      | letter | code => exact absurd (List.cons.inj h).1 hx
  | letter hx =>
      cases hv with
      | plain hy => exact absurd (List.cons.inj h).1.symm hy
      | letter hy => simp_all
      | code => simp_all [ne_u_of_meaning? hx]
  | code hx =>
      cases hv with
      | plain hy => exact absurd (List.cons.inj h).1.symm hy
      | letter hy => simp_all [(ne_u_of_meaning? hy).symm]
      | code hy => simp_all

/-! ### Bodies that consist of units -/

/-- A body and the units that it consists of, each with what it stands for. -/
structure Consists (raw : Text) (us : List (Text × Char)) : Prop where
  units : ∀ u ∈ us, IsUnit u.1 u.2
  flatten : us.flatMap Prod.fst = raw

theorem Consists.nil : Consists [] [] := ⟨nofun, rfl⟩

theorem Consists.cons {u raw : Text} {x : Char} {us : List (Text × Char)} (h : IsUnit u x)
    (hr : Consists raw us) : Consists (u ++ raw) ((u, x) :: us) where
  units := List.forall_mem_cons.mpr ⟨h, hr.units⟩
  flatten := by rw [List.flatMap_cons, hr.flatten]

theorem Consists.of_cons {raw : Text} {u : Text × Char} {us : List (Text × Char)}
    (h : Consists raw (u :: us)) :
    IsUnit u.1 u.2 ∧ Consists (us.flatMap Prod.fst) us ∧ raw = u.1 ++ us.flatMap Prod.fst := by
  obtain ⟨hu, hus⟩ := List.forall_mem_cons.mp h.units
  exact ⟨hu, ⟨hus, rfl⟩, h.flatten.symm⟩

/-- **A body consists of units in one way at most.** -/
theorem Consists.eq {raw : Text} {us vs : List (Text × Char)} (hu : Consists raw us)
    (hv : Consists raw vs) : us = vs := by
  induction us generalizing raw vs with
  | nil =>
      cases vs with
      | nil => rfl
      | cons v vs =>
          obtain ⟨h, -, hr⟩ := hv.of_cons
          rw [← hu.flatten] at hr
          exact absurd (List.append_eq_nil_iff.mp hr.symm).1 h.ne_nil
  | cons u us ih =>
      obtain ⟨hu, hus, hr⟩ := hu.of_cons
      cases vs with
      | nil =>
          rw [← hv.flatten] at hr
          exact absurd (List.append_eq_nil_iff.mp hr.symm).1 hu.ne_nil
      | cons v vs =>
          obtain ⟨hv, hvs, hr'⟩ := hv.of_cons
          rw [hr] at hr'
          obtain ⟨h₁, h₂⟩ := hu.eq_of_append hv hr'
          rw [h₁, List.append_cancel_left_eq] at hr'
          rw [ih hus (hr' ▸ hvs), Prod.ext h₁ h₂]

theorem denotes_iff {raw t : Text} :
    Denotes raw t ↔ ∃ us, Consists raw us ∧ us.map Prod.snd = t := by
  constructor
  · intro h
    induction h with
    | nil => exact ⟨[], .nil, rfl⟩
    | @cons u raw t x h _ ih =>
        obtain ⟨us, hus, rfl⟩ := ih
        exact ⟨(u, x) :: us, hus.cons h, rfl⟩
  · rintro ⟨us, hus, rfl⟩
    induction us generalizing raw with
    | nil => exact hus.flatten ▸ .nil
    | cons u us ih =>
        obtain ⟨hu, hr, rfl⟩ := hus.of_cons
        exact .cons hu (ih hr)

/-! ### Decoding -/

/-- A unit that comes first is decoded first. -/
theorem decode_append {u : Text} {x : Char} (h : IsUnit u x) (offset : Nat) (raw : Text) :
    decode offset (u ++ raw) = (decode (offset + u.length) raw).map (x :: ·) := by
  cases h with
  | plain hc =>
      rw [List.singleton_append, decode]
      · rfl
      all_goals simp_all
  | letter hc =>
      have hu := ne_u_of_meaning? hc
      rw [List.cons_append, List.singleton_append, decode]
      · rw [hc]
        rfl
      all_goals simp_all
  | code hx =>
      simp only [List.cons_append, List.nil_append, decode, hx]
      rfl

theorem map_eq_ok {ε α β : Type} {f : α → β} {r : Except ε α} {b : β} (h : r.map f = .ok b) :
    ∃ a, r = .ok a ∧ f a = b := by
  cases r with
  | error => cases h
  | ok a => exact ⟨a, rfl, Except.ok.inj h⟩

/-- A character that is no backslash alone and none with more behind it is none. -/
theorem ne_backslash_of_cons {c : Char} {t : Text} (hc : ∀ d r, c = '\\' → t = d :: r → False)
    (hn : c = '\\' → t = [] → False) : c ≠ '\\' := by
  intro h
  cases t with
  | nil => exact hn h rfl
  | cons d r => exact hc d r h rfl

/-- **What is decoded consists of units**, and the units that a body consists of are decoded. -/
theorem decode_eq_ok_iff {offset : Nat} {raw t : Text} :
    decode offset raw = .ok t ↔ Denotes raw t := by
  constructor
  · intro h
    fun_induction decode offset raw generalizing t with
    | case1 =>
        cases h
        exact .nil
    | case2 offset a b c d raw x hx ih =>
        obtain ⟨t, ht, rfl⟩ := map_eq_ok h
        exact .cons (.code hx) (ih ht)
    | case5 offset c raw _ _ x hx ih =>
        obtain ⟨t, ht, rfl⟩ := map_eq_ok h
        exact .cons (.letter hx) (ih ht)
    | case8 offset c raw _ _ h₃ h₄ ih =>
        obtain ⟨t, ht, rfl⟩ := map_eq_ok h
        exact .cons (.plain (ne_backslash_of_cons h₃ h₄)) (ih ht)
    | case3 | case4 | case6 | case7 => cases h
  · intro h
    induction h generalizing offset with
    | nil => rfl
    | cons hu _ ih =>
        rw [decode_append hu, ih]
        rfl

/-! ### Where decoding stops -/

/-- The place, counted on from `offset`, of a backslash that begins no unit, where units make up
all that comes before it. -/
def StopsAt (offset : Nat) (raw : Text) (place : Nat) : Prop :=
  ∃ front us rest, Consists front us ∧ raw = front ++ '\\' :: rest ∧
    place = offset + front.length ∧ ∀ u x, IsUnit u x → ¬ u <+: '\\' :: rest

theorem StopsAt.append {offset place : Nat} {u raw : Text} {x : Char} (hu : IsUnit u x)
    (h : StopsAt (offset + u.length) raw place) : StopsAt offset (u ++ raw) place := by
  obtain ⟨front, us, rest, hus, rfl, rfl, hn⟩ := h
  refine ⟨u ++ front, _, rest, hus.cons hu, (List.append_assoc ..).symm, ?_, hn⟩
  rw [List.length_append, Nat.add_assoc]

/-- A backslash begins a unit with the character behind it, or with `u` and the four behind that. -/
theorem stopsAt_self {offset : Nat} {rest : Text} (hl : ∀ c r, rest = c :: r → meaning? c = none)
    (hc : ∀ a b c d r, rest = 'u' :: a :: b :: c :: d :: r → Text.codePoint? a b c d = none) :
    StopsAt offset ('\\' :: rest) offset := by
  refine ⟨[], [], rest, .nil, rfl, rfl, fun u x hu hp => ?_⟩
  obtain ⟨r, hr⟩ := hp
  cases hu with
  | plain hx => exact hx (List.cons.inj hr).1
  | letter hx =>
      have := hl _ r (List.cons.inj hr).2.symm
      rw [this] at hx
      cases hx
  | code hx =>
      have := hc _ _ _ _ r (List.cons.inj hr).2.symm
      rw [this] at hx
      cases hx

/-- **Where decoding stops** a backslash begins no unit, and units come before it. -/
theorem stopsAt_of_decode {offset : Nat} {raw : Text} {e : BadEscape}
    (h : decode offset raw = .error e) : StopsAt offset raw e.offset := by
  fun_induction decode offset raw with
  | case1 => cases h
  | case2 offset a b c d raw x hx ih => exact (ih (map_eq_error h)).append (.code hx)
  | case5 offset c raw _ _ x hx ih => exact (ih (map_eq_error h)).append (.letter hx)
  | case8 offset c raw _ _ h₃ h₄ ih =>
      exact (ih (map_eq_error h)).append (.plain (ne_backslash_of_cons h₃ h₄))
  | case3 offset a b c d raw hx =>
      cases h
      refine stopsAt_self ?_ ?_
      · rintro _ _ ⟨⟩
        rfl
      · rintro _ _ _ _ _ ⟨⟩
        exact hx
  | case4 offset raw hraw =>
      cases h
      refine stopsAt_self ?_ ?_
      · rintro _ _ ⟨⟩
        rfl
      · rintro a b c d r ⟨⟩
        exact absurd rfl (hraw a b c d r)
  | case6 offset c raw _ hu hc =>
      cases h
      refine stopsAt_self ?_ ?_
      · rintro _ _ ⟨⟩
        exact hc
      · rintro _ _ _ _ _ ⟨⟩
        exact absurd rfl hu
  | case7 =>
      cases h
      refine stopsAt_self ?_ ?_
      · rintro _ _ ⟨⟩
      · rintro _ _ _ _ _ ⟨⟩

theorem exists_decode_of_no_unit {rest : Text} (h : ∀ u x, IsUnit u x → ¬ u <+: '\\' :: rest)
    (offset : Nat) : ∃ sequence, decode offset ('\\' :: rest) = .error ⟨offset, sequence⟩ := by
  have no : ∀ {u raw : Text} {x : Char}, IsUnit u x → '\\' :: rest ≠ u ++ raw :=
    fun hu hr => h _ _ hu ⟨_, hr.symm⟩
  cases hd : decode offset ('\\' :: rest) with
  | ok t =>
      generalize hr : '\\' :: rest = raw at hd
      cases decode_eq_ok_iff.mp hd with
      | nil => cases hr
      | cons hu => exact absurd hr (no hu)
  | error e =>
      obtain ⟨place, sequence⟩ := e
      obtain ⟨front, us, rest', hus, hr, rfl, -⟩ := stopsAt_of_decode hd
      cases us with
      | nil =>
          obtain rfl := hus.flatten
          exact ⟨sequence, rfl⟩
      | cons u us =>
          obtain ⟨hu, -, rfl⟩ := hus.of_cons
          rw [List.append_assoc] at hr
          exact absurd hr (no hu)

theorem Consists.decode_append {front : Text} {us : List (Text × Char)} (h : Consists front us)
    (offset : Nat) (raw : Text) :
    decode offset (front ++ raw) =
      (decode (offset + front.length) raw).map (us.map Prod.snd ++ ·) := by
  induction us generalizing front offset with
  | nil =>
      obtain rfl := h.flatten
      cases hd : decode offset raw <;> simp [hd, Except.map]
  | cons u us ih =>
      obtain ⟨hu, hus, rfl⟩ := h.of_cons
      rw [List.append_assoc, Literal.decode_append hu, ih hus, List.length_append, Nat.add_assoc]
      cases decode (offset + (u.1.length + (us.flatMap Prod.fst).length)) raw <;> rfl

/-- **Decoding stops at the first backslash that begins no unit**, peeling units from the left. -/
theorem decode_eq_error_iff {offset place : Nat} {raw : Text} :
    (∃ sequence, decode offset raw = .error ⟨place, sequence⟩) ↔ StopsAt offset raw place := by
  constructor
  · rintro ⟨sequence, h⟩
    exact stopsAt_of_decode h
  · rintro ⟨front, us, rest, hus, rfl, rfl, hn⟩
    obtain ⟨sequence, hs⟩ := exists_decode_of_no_unit hn (offset + front.length)
    exact ⟨sequence, by rw [hus.decode_append, hs]; rfl⟩

end RuleCheck.Literal
