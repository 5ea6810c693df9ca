import Mathlib.Data.List.Basic
import RuleCheck.Lexeme.Lexing
import RuleCheck.Proofs.Lexeme.Spelling

/-!
# Proofs — Lexeme — rows of lexemes

`Lexes t r t'` says that the text `t` begins with the lexemes of the row `r`, and that `t'` is what
lies behind them.  The lexing of a text is the longest such row (`lexes_lexing`), and any such row
is a beginning of it (`Lexes.lexing_eq`).

**What lies behind a row can be exchanged** for a text that the last lexeme is clear of
(`Lexes.exchange`): the lexemes before it have others behind them, and see no further than these.
-/

namespace RuleCheck

/-- The text `t` begins with the lexemes of a row, and `t'` lies behind them. -/
inductive Lexes : Text → List Lexeme → Text → Prop where
  | nil (t : Text) : Lexes t [] t
  | cons {t t' : Text} {l : Lexeme} {r : List Lexeme} (h : read t = .lexeme l)
      (hr : Lexes (t.drop l.width) r t') : Lexes t (l :: r) t'

namespace Lexes

theorem append {t t₁ t' : Text} {r₁ r₂ : List Lexeme} (h₁ : Lexes t r₁ t₁) (h₂ : Lexes t₁ r₂ t') :
    Lexes t (r₁ ++ r₂) t' := by
  induction h₁ with
  | nil => exact h₂
  | cons h _ ih => exact .cons h (ih h₂)

/-- A spelling before a row of lexemes is one lexeme more. -/
theorem spell {k : Token} {w t t' : Text} {r : List Lexeme} (hs : Spells k w) (hc : Clear k w t)
    (hr : Lexes t r t') : Lexes (w ++ t) (⟨k, w.length⟩ :: r) t' :=
  .cons (read_append hs hc) (by simpa using hr)

/-- The characters of the lexemes and what lies behind them make up the text. -/
theorem exists_append {t t' : Text} {r : List Lexeme} (h : Lexes t r t') :
    ∃ u, t = u ++ t' ∧ u.length = totalWidth r := by
  induction h with
  | nil t => exact ⟨[], rfl, rfl⟩
  | @cons t t' l r h _ ih =>
      obtain ⟨u, hu, hlen⟩ := ih
      refine ⟨t.take l.width ++ u, ?_, ?_⟩
      · rw [List.append_assoc, ← hu, List.take_append_drop]
      · have := width_le_length h
        simp only [List.length_append, List.length_take, totalWidth, hlen]
        omega

/-- A row of lexemes takes some of the text. -/
theorem eq_nil {t : Text} {r : List Lexeme} (h : Lexes t r t) : r = [] := by
  cases h with
  | nil => rfl
  | @cons _ _ l r h hr =>
      obtain ⟨u, hu, -⟩ := hr.exists_append
      have := width_pos h
      have := width_le_length h
      have := congrArg List.length hu
      simp only [List.length_drop, List.length_append] at this
      omega

/-- **What lies behind a row of lexemes can be exchanged**, if the last of them is clear of what
comes there instead. -/
theorem exchange {t t' v : Text} {r : List Lexeme} (h : Lexes t r t') (ne : t' ≠ []) (hv : Apart v)
    (hl : ∀ l ∈ r.getLast?, l.kind ≠ .blank → ∀ w, Clear l.token w v) :
    ∃ u, t = u ++ t' ∧ Lexes (u ++ v) r v := by
  induction h with
  | nil t => exact ⟨[], rfl, .nil v⟩
  | @cons t t' l r h hr ih =>
      obtain ⟨w, x, rfl, hw, hs, hc⟩ := stands_of_read h
      rw [← hw, List.drop_left] at hr ih
      obtain ⟨u, rfl, hu⟩ := ih ne fun j hj => hl j (List.mem_getLast?_cons hj)
      refine ⟨w ++ u, (List.append_assoc ..).symm, ?_⟩
      have hc' : Clear l.token w (u ++ v) := by
        -- where nothing is left of the text, the lexeme is the last
        refine hc.of_append ne hv fun hn hb => hl l ?_ hb w
        subst hn
        rw [eq_nil hr]
        rfl
      have := Lexes.spell hs hc' hu
      rw [List.append_assoc]
      rwa [hw] at this

/-- The first lexemes of a row are followed by the others. -/
theorem split {t t' : Text} {a b : List Lexeme} (h : Lexes t (a ++ b) t') :
    ∃ s, Lexes t a s ∧ Lexes s b t' := by
  induction a generalizing t with
  | nil => exact ⟨t, .nil t, h⟩
  | cons l a ih =>
      cases h with
      | cons hl hr =>
          obtain ⟨s, ha, hb⟩ := ih hr
          exact ⟨s, .cons hl ha, hb⟩

/-- A text is cut between two lexemes. -/
theorem cut {t t' : Text} {a b : List Lexeme} (h : Lexes t (a ++ b) t') :
    ∃ u s, t = u ++ s ∧ u.length = totalWidth a ∧ Lexes (u ++ s) a s ∧ Lexes s b t' := by
  obtain ⟨s, ha, hb⟩ := h.split
  obtain ⟨u, rfl, hlen⟩ := ha.exists_append
  exact ⟨u, s, rfl, hlen, ha, hb⟩

/-- The last lexeme of a row stands at the end of its characters. -/
theorem concat {u s : Text} {l : Lexeme} {r : List Lexeme} (h : Lexes (u ++ s) (r ++ [l]) s) :
    ∃ v w, u = v ++ w ∧ Spells l.token w ∧ Clear l.token w s ∧
      Lexes (v ++ (w ++ s)) r (w ++ s) := by
  obtain ⟨x, hx, hl⟩ := h.split
  cases hl with
  | cons hl hn =>
      obtain ⟨w, y, rfl, hw, hs, hc⟩ := stands_of_read hl
      rw [← hw, List.drop_left] at hn
      cases hn
      obtain ⟨v, hv, -⟩ := hx.exists_append
      rw [← List.append_assoc] at hv
      obtain rfl := List.append_cancel_right hv
      exact ⟨v, w, rfl, hs, hc, by rwa [List.append_assoc] at hx⟩

/-- Where a row of lexemes lies ahead, the lexing begins with it. -/
theorem lexing_eq {t t' : Text} {r : List Lexeme} (h : Lexes t r t') :
    lexing t = ⟨r ++ (lexing t').lexemes, (lexing t').rest⟩ := by
  induction h with
  | nil => rfl
  | cons h _ ih => rw [lexing_of_lexeme h, ih]; rfl

end Lexes

theorem lexes_lexing (t : Text) : Lexes t (lexing t).lexemes (lexing t).rest := by
  fun_induction lexing t with
  | case1 t l h ih => exact .cons h ih
  | case2 t => exact .nil t

/-- A text consists of the lexemes of a row if nothing lies behind them. -/
theorem lexemes?_eq_some_iff {t : Text} {r : List Lexeme} : lexemes? t = some r ↔ Lexes t r [] := by
  constructor
  · intro h
    rw [lexemes?] at h
    split at h
    · rename_i hr
      cases h
      exact hr ▸ lexes_lexing t
    · cases h
  · intro h
    have hn : lexing [] = ⟨[], []⟩ := lexing_of_ne (by simp)
    simp [lexemes?, h.lexing_eq, hn]

theorem Lexes.lexemes_eq {t : Text} {r : List Lexeme} (h : Lexes t r []) :
    (lexing t).lexemes = r := by
  rw [h.lexing_eq, lexing_of_ne (t := []) (by simp), List.append_nil]

/-- A text has one row of lexemes at most. -/
theorem Lexes.eq {t : Text} {r₁ r₂ : List Lexeme} (h₁ : Lexes t r₁ []) (h₂ : Lexes t r₂ []) :
    r₁ = r₂ :=
  Option.some.inj ((lexemes?_eq_some_iff.mpr h₁).symm.trans (lexemes?_eq_some_iff.mpr h₂))

/-! ### Columns -/

@[simp] theorem totalWidth_append (a b : List Lexeme) :
    totalWidth (a ++ b) = totalWidth a + totalWidth b := by
  induction a with
  | nil => simp [totalWidth]
  | cons l a ih => simp [totalWidth, ih, Nat.add_assoc]

theorem placed_append (c : Nat) (a b : List Lexeme) :
    placed c (a ++ b) = placed c a ++ placed (c + totalWidth a) b := by
  induction a generalizing c with
  | nil => rfl
  | cons l a ih => simp only [List.cons_append, placed, totalWidth, ih, Nat.add_assoc]

/-- The column of a lexeme is the number of characters that those before it take. -/
theorem mem_placed_iff {column c : Nat} {l : Lexeme} {r : List Lexeme} :
    (c, l) ∈ placed column r ↔ ∃ a b, r = a ++ l :: b ∧ c = column + totalWidth a := by
  induction r generalizing column with
  | nil => simp [placed]
  | cons j r ih =>
      rw [placed, List.mem_cons, ih]
      constructor
      · rintro (h | ⟨a, b, rfl, rfl⟩)
        · cases h
          exact ⟨[], r, rfl, rfl⟩
        · exact ⟨j :: a, b, rfl, Nat.add_assoc ..⟩
      · rintro ⟨a, b, h, rfl⟩
        cases a with
        | nil =>
            cases h
            exact .inl rfl
        | cons i a =>
            cases h
            exact .inr ⟨a, b, rfl, (Nat.add_assoc ..).symm⟩

/-! ### The lexemes that are no blanks -/

@[simp] theorem kinds_nil : kinds [] = [] := rfl

theorem significant_cons_blank {l : Lexeme} {r : List Lexeme} (h : l.kind = .blank) :
    significant (l :: r) = significant r := by
  simp [significant, h]

theorem significant_cons {l : Lexeme} {r : List Lexeme} (h : l.kind ≠ .blank) :
    significant (l :: r) = l :: significant r := by
  simp [significant, h]

theorem kinds_cons_blank {l : Lexeme} {r : List Lexeme} (h : l.kind = .blank) :
    kinds (l :: r) = kinds r := by
  rw [kinds, significant_cons_blank h, kinds]

theorem kinds_cons {l : Lexeme} {r : List Lexeme} (h : l.kind ≠ .blank) :
    kinds (l :: r) = l.kind :: kinds r := by
  rw [kinds, significant_cons h, List.map_cons, kinds]

/-- A lexeme more at the beginning leaves the last kind what it is. -/
theorem mem_getLast?_kinds_cons {k : Kind} {l : Lexeme} {r : List Lexeme}
    (h : k ∈ (kinds r).getLast?) : k ∈ (kinds (l :: r)).getLast? := by
  by_cases hb : l.kind = .blank
  · rwa [kinds_cons_blank hb]
  · rw [kinds_cons hb]
    exact List.mem_getLast?_cons h

theorem kinds_eq_filter (r : List Lexeme) : kinds r = (r.map Lexeme.kind).filter (· ≠ .blank) := by
  rw [kinds, significant, List.filter_map]
  rfl

theorem kinds_append (r₁ r₂ : List Lexeme) : kinds (r₁ ++ r₂) = kinds r₁ ++ kinds r₂ := by
  simp [kinds, significant]

/-- The last lexeme of a row, if it is no blank, has the last kind. -/
theorem getLast?_kinds {l : Lexeme} {r : List Lexeme} (hl : l ∈ r.getLast?) (hb : l.kind ≠ .blank) :
    (kinds r).getLast? = some l.kind := by
  obtain ⟨r, rfl⟩ := List.getLast?_eq_some_iff.mp hl
  rw [kinds_append, kinds_cons hb, kinds_nil, List.getLast?_concat]

theorem ne_blank_of_mem_kinds {k : Kind} {r : List Lexeme} (h : k ∈ kinds r) : k ≠ .blank := by
  obtain ⟨l, hl, rfl⟩ := List.mem_map.mp h
  simpa using (List.mem_filter.mp hl).2

theorem blank_notMem_kinds (r : List Lexeme) : .blank ∉ kinds r :=
  fun hb => ne_blank_of_mem_kinds hb rfl

@[simp] theorem significant_significant (r : List Lexeme) :
    significant (significant r) = significant r := by
  simp [significant]

end RuleCheck
