import RuleCheck.Proofs.Text.Line

/-!
# Proofs — Text — line by line

A text is a row of characters without a line feed, or such a row, a line feed and a text; what holds
of the one and goes over from a text to the other holds of all (`line_induction`).

**The line with a number stands in the text as it is**, behind as many line feeds as the number says
and before an ending of its own (`getElem?_lines_iff`).  A carriage return put before each line feed
belongs to the endings, if there was none, and **the lines stay the same** (`lines_withReturns`).
-/

namespace RuleCheck.Text

@[elab_as_elim]
theorem line_induction {P : Text → Prop} (t : Text) (last : ∀ l : Text, '\n' ∉ l → P l)
    (line : ∀ l t : Text, '\n' ∉ l → P t → P (l ++ '\n' :: t)) : P t := by
  suffices h : ∀ l : Text, '\n' ∉ l → P (l ++ t) from h [] List.not_mem_nil
  induction t with
  | nil =>
      intro l hl
      rw [List.append_nil]
      exact last l hl
  | cons c t ih =>
      intro l hl
      by_cases hc : c = '\n'
      · subst hc
        exact line l t hl (ih [] List.not_mem_nil)
      · rw [List.append_cons]
        exact ih _ (by simp [hl, Ne.symm hc])

/-! ### Where a line stands -/

/-- What can come behind a line: a line feed, with a carriage return before it or without, or
nothing, if the line is not empty.  A carriage return before a line feed is none of the line's. -/
inductive EndsLine (l : Text) : Text → Prop where
  | newline (t : Text) (h : l.getLast? ≠ some '\r') : EndsLine l ('\n' :: t)
  | returned (t : Text) : EndsLine l ('\r' :: '\n' :: t)
  | last (ne : l ≠ []) : EndsLine l []

/-- The line `l` stands in the text, and `n` line feeds come before it. -/
def LineAt (t : Text) (n : Nat) (l : Text) : Prop :=
  ∃ before behind, t = before ++ (l ++ behind) ∧ (∀ c ∈ before.getLast?, c = '\n') ∧
    before.count '\n' = n ∧ '\n' ∉ l ∧ EndsLine l behind

/-- Texts that are cut at their first line feeds. -/
theorem append_newline_inj {p q s t : Text} (hp : '\n' ∉ p) (hq : '\n' ∉ q) :
    p ++ '\n' :: s = q ++ '\n' :: t ↔ p = q ∧ s = t := by
  constructor
  · intro h
    have hs := congrArg (List.splitOn '\n') h
    rw [List.splitOn_append_cons_self_of_not_mem hp,
      List.splitOn_append_cons_self_of_not_mem hq] at hs
    obtain rfl := (List.cons.inj hs).1
    exact ⟨rfl, (List.cons.inj (List.append_cancel_left h)).2⟩
  · rintro ⟨rfl, rfl⟩
    rfl

theorem eq_nil_of_notMem {before : Text} (h : ∀ c ∈ before.getLast?, c = '\n')
    (hn : '\n' ∉ before) : before = [] := by
  rcases List.eq_nil_or_concat before with rfl | ⟨b, c, rfl⟩
  · rfl
  · rw [List.concat_eq_append] at h hn
    obtain rfl := h c List.getLast?_concat
    exact absurd (by simp) hn

/-- A line feed ends what is before it, and what is behind it goes on. -/
theorem forall_mem_getLast?_append {p b : Text} :
    (∀ c ∈ (p ++ '\n' :: b).getLast?, c = '\n') ↔ ∀ c ∈ b.getLast?, c = '\n' := by
  rw [List.getLast?_append, List.getLast?_cons]
  cases b.getLast? with
  | none => simp
  | some c => simp

section
variable {p t l : Text} {n : Nat}

theorem lineAt_of_notMem (ht : '\n' ∉ t) : LineAt t n l ↔ n = 0 ∧ l = t ∧ t ≠ [] := by
  constructor
  · rintro ⟨before, behind, rfl, hb, rfl, -, he⟩
    simp only [List.mem_append, not_or] at ht
    obtain rfl := eq_nil_of_notMem hb ht.1
    cases he with
    | newline | returned => simp at ht
    | last ne => simpa using ne
  · rintro ⟨rfl, rfl, ne⟩
    exact ⟨[], [], by simp, by simp, rfl, ht, .last ne⟩

theorem lineAt_zero (hp : '\n' ∉ p) : LineAt (p ++ '\n' :: t) 0 l ↔ withoutReturn p = l := by
  constructor
  · rintro ⟨before, behind, h, hb, hn, hl, he⟩
    obtain rfl := eq_nil_of_notMem hb (List.count_eq_zero.mp hn)
    rw [List.nil_append] at h
    cases he with
    | newline s hr =>
        obtain ⟨rfl, -⟩ := (append_newline_inj hp hl).mp h
        exact if_neg hr
    | returned s =>
        have hr : '\n' ∉ l ++ ['\r'] := by simp [hl]
        rw [List.append_cons l] at h
        obtain ⟨rfl, -⟩ := (append_newline_inj hp hr).mp h
        simp [withoutReturn]
    | last =>
        rw [List.append_nil] at h
        simp [← h] at hl
  · rintro rfl
    by_cases hr : p.getLast? = some '\r'
    · obtain ⟨l, rfl⟩ := List.getLast?_eq_some_iff.mp hr
      have hl : withoutReturn (l ++ ['\r']) = l := by simp [withoutReturn]
      rw [hl]
      exact ⟨[], '\r' :: '\n' :: t, by simp, by simp, rfl, fun h => hp (by simp [h]), .returned t⟩
    · have hl : withoutReturn p = p := if_neg hr
      rw [hl]
      exact ⟨[], '\n' :: t, rfl, by simp, rfl, hp, .newline t hr⟩

theorem lineAt_succ (hp : '\n' ∉ p) : LineAt (p ++ '\n' :: t) (n + 1) l ↔ LineAt t n l := by
  constructor
  · rintro ⟨before, behind, h, hb, hn, hl, he⟩
    have hm : '\n' ∈ before := List.count_pos_iff.mp (hn ▸ Nat.succ_pos n)
    obtain ⟨q, b, rfl, hq⟩ := List.eq_append_cons_of_mem hm
    rw [List.append_assoc, List.cons_append, append_newline_inj hp hq] at h
    obtain ⟨rfl, rfl⟩ := h
    refine ⟨b, behind, rfl, forall_mem_getLast?_append.mp hb, ?_, hl, he⟩
    rw [List.count_append, List.count_eq_zero.mpr hp, List.count_cons_self, Nat.zero_add] at hn
    exact Nat.succ.inj hn
  · rintro ⟨before, behind, rfl, hb, rfl, hl, he⟩
    refine ⟨p ++ '\n' :: before, behind, by simp, forall_mem_getLast?_append.mpr hb, ?_, hl, he⟩
    rw [List.count_append, List.count_eq_zero.mpr hp, List.count_cons_self, Nat.zero_add]

end

/-- **A line stands in the text as it is.** -/
theorem getElem?_lines_iff {t l : Text} {n : Nat} : (lines t)[n]? = some l ↔ LineAt t n l := by
  induction t using line_induction generalizing n with
  | last t ht =>
      rw [lineAt_of_notMem ht]
      by_cases ne : t = []
      · subst ne
        exact ⟨nofun, fun h => absurd rfl h.2.2⟩
      · rw [lines_of_notMem ht ne]
        cases n with
        | zero => simp [ne, eq_comm]
        | succ n => simp
  | line p t hp ih =>
      rw [lines_append_cons hp]
      cases n with
      | zero => rw [lineAt_zero hp, List.getElem?_cons_zero, Option.some.injEq]
      | succ n => rw [lineAt_succ hp, List.getElem?_cons_succ, ih]

/-! ### Carriage returns before line feeds -/

/-- The text with a carriage return put before each line feed. -/
def withReturns (t : Text) : Text := t.flatMap fun c => if c = '\n' then ['\r', '\n'] else [c]

theorem withReturns_of_notMem {l : Text} (h : '\n' ∉ l) : withReturns l = l := by
  induction l with
  | nil => rfl
  | cons c l ih =>
      rw [List.mem_cons, not_or] at h
      rw [withReturns, List.flatMap_cons, if_neg (Ne.symm h.1)]
      exact congrArg (c :: ·) (ih h.2)

theorem withReturns_append_cons {l t : Text} (h : '\n' ∉ l) :
    withReturns (l ++ '\n' :: t) = l ++ ['\r'] ++ '\n' :: withReturns t := by
  have hl : withReturns (l ++ '\n' :: t) = withReturns l ++ withReturns ('\n' :: t) :=
    List.flatMap_append
  rw [hl, withReturns_of_notMem h, List.append_assoc]
  rfl

/-- **Lines are the same with carriage returns before their line feeds.** -/
theorem lines_withReturns {t : Text} (h : ¬ ['\r', '\n'] <:+: t) :
    lines (withReturns t) = lines t := by
  induction t using line_induction with
  | last t ht => rw [withReturns_of_notMem ht]
  | line l t hl ih =>
      have hr : l.getLast? ≠ some '\r' := by
        intro hr
        obtain ⟨k, rfl⟩ := List.getLast?_eq_some_iff.mp hr
        exact h ⟨k, t, by simp⟩
      have hlr : withoutReturn (l ++ ['\r']) = l := by simp [withoutReturn]
      have hl' : withoutReturn l = l := if_neg hr
      rw [withReturns_append_cons hl, lines_append_cons (by simp [hl]), lines_append_cons hl, hlr,
        hl', ih fun ht => h (ht.trans ⟨l ++ ['\n'], [], by simp⟩)]

end RuleCheck.Text
