import RuleCheck.Proofs.Lexeme.Extension
import RuleCheck.Proofs.Scan.Language

/-!
# Proofs — Scan — expressions in parentheses

**An accepted text in parentheses is accepted**, and with a parenthesis that nothing closes it is
rejected at its end, unless it begins with a variable (`check_wrap`).  A group has no variable
first.  As the arguments of a call every accepted text will do.

The lexemes of the text are read in the parentheses as they were (`Lexes.append_rightParen`).  Their
kinds are what a rule of the grammar asks for: a row derived from the top is the body of a call, and
if it has no variable first, the body of a group (`Derives.callBody_of_top`,
`Derives.groupBody_of_top`).
-/

namespace RuleCheck

open Form (isWordChar truthValues)

/-- The first lexeme of a text that is no blank, with its column. -/
def leading? (t : Text) : Option (Nat × Lexeme) :=
  (placed 0 (lexing t).lexemes).find? fun p => p.2.kind ≠ .blank

/-- Whether a text is the name of a function: letters, digits and underscores, with no digit first
and no truth value at the beginning. -/
structure IsName (f : Text) : Prop where
  head : ∃ c ∈ f.head?, c.isAlpha ∨ c = '_'
  isWordChar : ∀ c ∈ f, isWordChar c
  not_truthValue : ∀ s ∈ truthValues, ¬ s <+: f

/-! ### The first lexeme -/

theorem head?_kinds (column : Nat) (r : List Lexeme) :
    (kinds r).head? = ((placed column r).find? fun p => p.2.kind ≠ .blank).map (·.2.kind) := by
  induction r generalizing column with
  | nil => rfl
  | cons l r ih =>
      by_cases hb : l.kind = .blank
      · simpa [placed, hb, kinds_cons_blank hb] using ih _
      · simp [placed, hb, kinds_cons hb]

/-- Only blanks come before the first lexeme that is none. -/
theorem exists_append_of_find? {column c : Nat} {l : Lexeme} {r : List Lexeme}
    (h : (placed column r).find? (fun p => p.2.kind ≠ .blank) = some (c, l)) :
    ∃ a b, r = a ++ l :: b ∧ kinds a = [] ∧ c = column + totalWidth a := by
  induction r generalizing column with
  | nil => cases h
  | cons j r ih =>
      by_cases hb : j.kind = .blank
      · simp only [placed, List.find?_cons, hb, ne_eq, not_true_eq_false, decide_false] at h
        obtain ⟨a, b, rfl, ha, rfl⟩ := ih h
        exact ⟨j :: a, b, rfl, (kinds_cons_blank hb).trans ha, Nat.add_assoc ..⟩
      · simp only [placed, List.find?_cons, hb, ne_eq, not_false_eq_true, decide_true,
          Option.some.injEq, Prod.mk.injEq] at h
        obtain ⟨rfl, rfl⟩ := h
        exact ⟨[], r, rfl, rfl, rfl⟩

theorem head?_kinds_ne {t : Text} {k : Kind} (hk : ∀ p ∈ leading? t, p.2.kind ≠ k) :
    (kinds (lexing t).lexemes).head? ≠ some k := by
  rw [head?_kinds 0, ne_eq, Option.map_eq_some_iff]
  rintro ⟨p, hp, he⟩
  exact hk p hp he

/-! ### Rows in parentheses -/

theorem Derives.groupBody_of_top {r : List Kind} (h : Derives .top r) (hv : r.head? ≠ some .var) :
    Derives .groupBody r := by
  cases h with
  | topChain ha hb => exact .groupBody ha hb
  | topVar => exact absurd rfl hv

theorem Derives.callBody_of_top {r : List Kind} (h : Derives .top r) : Derives .callBody r := by
  cases h with
  | topChain ha hb => exact .callBodyChain ha hb
  | topVar hb => exact .callBodyVar hb

theorem Derives.top_of_bare {r : List Kind} (h : Derives .bare r) : Derives .top r := by
  simpa using Derives.topChain (.chainBare h) .restNil

theorem isExpression_group {r : List Kind} (h : Derives .groupBody r) :
    IsExpression (.leftParen :: r ++ [.rightParen]) :=
  (Derives.top_of_bare (.bareGroup (.group h .callsNil))).isExpression

theorem isExpression_call {r : List Kind} (h : Derives .callBody r) :
    IsExpression (.function :: .leftParen :: r ++ [.rightParen]) :=
  (Derives.top_of_bare (.bareCall h .callsNil)).isExpression

/-- A parenthesis that nothing closes is what is missing at the end. -/
theorem missing?_open {r : List Kind} (h : Level r) :
    (Progress.start.afterRow (.leftParen :: r)).missing? = some .unbalanced := by
  have hn : (Progress.start.afterRow (.leftParen :: r)).nesting = ⟨1, false⟩ :=
    (Progress.nesting_afterRow _ _).trans (h.foldl_after (n := ⟨1, false⟩) (by decide))
  rw [Progress.missing?, hn]
  rfl

/-! ### Texts in parentheses -/

theorem IsName.spells {f : Text} (h : IsName f) : Spells (.function f) f := by
  obtain ⟨⟨c, hc, ha⟩, hw, ht⟩ := h
  cases f with
  | nil => cases hc
  | cons d f =>
      obtain rfl : d = c := Option.some.inj hc
      refine .function (fun hd => ?_) hw ht
      rcases ha with ha | rfl
      · exact not_isDigit_of_isAlpha ha hd
      · cases hd

/-- The lexemes of a text are read again with a right parenthesis behind them. -/
theorem Lexes.append_rightParen {t : Text} {r : List Lexeme} (h : Lexes t r [])
    (he : ∀ k ∈ (kinds r).getLast?, k.mayEnd) :
    Lexes (t ++ [')']) (r ++ [⟨.rightParen, 1⟩]) [] := by
  have hr : Lexes [')'] [⟨.rightParen, 1⟩] [] := .spell (w := [')']) .rightParen trivial (.nil [])
  refine (h.extend he (fun c hc => ?_) fun l _ hb w => clear_of_stop (.inl rfl) hb).append hr
  cases hc
  decide

theorem kinds_cons_leftParen (r : List Lexeme) :
    kinds (⟨.leftParen, 1⟩ :: r) = .leftParen :: kinds r := kinds_cons nofun

/-- A left parenthesis is a lexeme of its own. -/
theorem Lexes.cons_leftParen {t t' : Text} {r : List Lexeme} (h : Lexes t r t') :
    Lexes ('(' :: t) (⟨.leftParen, 1⟩ :: r) t' :=
  .spell (w := ['(']) .leftParen trivial h

section
variable {t : Text} (h : check t = .accepted)
include h

theorem derives_of_accepted : Derives .top (kinds (lexing t).lexemes) :=
  (derives_iff_isExpression (blank_notMem_kinds _)).mpr (lexes_of_accepted h).2

/-- An accepted text is a group in parentheses. -/
theorem check_group (hv : ∀ p ∈ leading? t, p.2.kind ≠ .var) :
    check ('(' :: t ++ [')']) = .accepted := by
  obtain ⟨hx, he⟩ := lexes_of_accepted h
  have hg := (derives_of_accepted h).groupBody_of_top (head?_kinds_ne hv)
  refine accepted_of_lexes (hx.append_rightParen he.mayEnd).cons_leftParen ?_
  rw [kinds_cons_leftParen, kinds_append]
  exact isExpression_group hg

/-- An accepted text with a parenthesis before it that nothing closes. -/
theorem check_open (hv : ∀ p ∈ leading? t, p.2.kind ≠ .var) :
    check ('(' :: t) = .rejected ⟨t.length + 1, .unbalanced⟩ := by
  obtain ⟨hx, -⟩ := lexes_of_accepted h
  have hg := (derives_of_accepted h).groupBody_of_top (head?_kinds_ne hv)
  have ha : Slots.start.AdmitsRow (kinds (⟨.leftParen, 1⟩ :: (lexing t).lexemes)) := by
    rw [kinds_cons_leftParen]
    exact ⟨rfl, hg.fits.1⟩
  rw [check_of_admitsRow hx.cons_leftParen ha, kinds_cons_leftParen, missing?_open hg.level]
  rfl

/-- A variable comes first in no group. -/
theorem check_group_of_var {p : Nat} {l : Lexeme} (hl : leading? t = some (p, l))
    (hv : l.kind = .var) :
    check ('(' :: t ++ [')']) = .rejected ⟨p + 1, .unexpected .var⟩ := by
  obtain ⟨hx, he⟩ := lexes_of_accepted h
  obtain ⟨a, b, hr, ha, rfl⟩ := exists_append_of_find? hl
  have hx' := (hx.append_rightParen he.mayEnd).cons_leftParen
  rw [hr, List.append_assoc, List.cons_append] at hx'
  have hk : kinds (⟨.leftParen, 1⟩ :: a) = [.leftParen] := by rw [kinds_cons_leftParen, ha]
  have := check_of_misplaced (a := ⟨.leftParen, 1⟩ :: a) hx' (hk ▸ ⟨rfl, trivial⟩)
    (by rw [hk, hv]; rfl)
  rw [hv] at this
  rw [List.cons_append, this, totalWidth]
  simp [Nat.add_comm]

/-- An accepted text is the arguments of a call. -/
theorem check_call {f : Text} (hf : IsName f) :
    check (f ++ '(' :: t ++ [')']) = .accepted := by
  obtain ⟨hx, he⟩ := lexes_of_accepted h
  have hc : Clear (.function f) f ('(' :: (t ++ [')'])) := by
    intro c hc
    cases hc
    decide
  rw [List.append_assoc]
  refine accepted_of_lexes (.spell hf.spells hc (hx.append_rightParen he.mayEnd).cons_leftParen) ?_
  rw [kinds_cons (l := ⟨.function f, f.length⟩) nofun, kinds_cons_leftParen, kinds_append]
  exact isExpression_call (derives_of_accepted h).callBody_of_top

end

theorem leading?_open (t : Text) : leading? ('(' :: t) = some (0, ⟨.leftParen, 1⟩) := by
  have hr : read ('(' :: t) = .lexeme ⟨.leftParen, 1⟩ :=
    read_append (w := ['(']) .leftParen trivial
  rw [leading?, lexing_of_lexeme hr]
  rfl

/-- **Accepted texts in parentheses**: as a group, with a parenthesis that nothing closes, and as
the arguments of a call. -/
theorem check_wrap {t : Text} (h : check t = .accepted) :
    ((∀ p ∈ leading? t, p.2.kind ≠ .var) →
        check ('(' :: t ++ [')']) = .accepted ∧
          check ('(' :: t) = .rejected ⟨t.length + 1, .unbalanced⟩ ∧
          check ('(' :: '(' :: t ++ [')']) = .rejected ⟨t.length + 3, .unbalanced⟩) ∧
      (∀ p l, leading? t = some (p, l) → l.kind = .var →
        check ('(' :: t ++ [')']) = .rejected ⟨p + 1, .unexpected .var⟩) ∧
      ∀ f, IsName f → check (f ++ '(' :: t ++ [')']) = .accepted := by
  refine ⟨fun hv => ?_, fun p l => check_group_of_var h, fun f => check_call h⟩
  have hg := check_group h hv
  refine ⟨hg, check_open h hv, ?_⟩
  have := check_open hg fun p hp => by
    rw [List.cons_append, leading?_open] at hp
    cases hp
    nofun
  simpa using this

/-- A text with a call at its end, and one that begins with a variable and ends with a path. -/
theorem check_wrap_reference_at_end :
    check "'x' + 1 or f(./p )".toList = .accepted ∧
      check "('x' + 1 or f(./p ))".toList = .accepted ∧
      check "('x' + 1 or f(./p )".toList = .rejected ⟨19, .unbalanced⟩ ∧
      check "(('x' + 1 or f(./p ))".toList = .rejected ⟨21, .unbalanced⟩ ∧
      check " $A, ./p".toList = .accepted ∧
      check "( $A, ./p)".toList = .rejected ⟨2, .unexpected .var⟩ ∧
      check "or( $A, ./p)".toList = .accepted := by
  have h : check "'x' + 1 or f(./p )".toList = .accepted := by decide +kernel
  have hv : ∀ p ∈ leading? "'x' + 1 or f(./p )".toList, p.2.kind ≠ .var := by decide +kernel
  have h' : check " $A, ./p".toList = .accepted := by decide +kernel
  have hl : leading? " $A, ./p".toList = some (1, ⟨.var "$A".toList, 2⟩) := by decide +kernel
  have hf : IsName "or".toList := ⟨⟨'o', rfl, by decide⟩, List.all_eq_true.mp rfl, by decide⟩
  obtain ⟨hg, ho, hog⟩ := (check_wrap h).1 hv
  obtain ⟨-, hr, hc⟩ := check_wrap h'
  exact ⟨h, hg, ho, hog, h', hr _ _ hl rfl, hc _ hf⟩

end RuleCheck
