import RuleCheck.Proofs.Lexeme.Row

/-!
# Proofs — Lexeme — texts that go on

A text that consists of lexemes can be gone on with: where the last lexeme is clear of what comes
behind the text, all the lexemes are read again as they were (`Lexes.extend`).

One thing is in the way.  The end of a text keeps a word from being an operator, since something has
to follow the blank behind it (`word_at_end`).  There the text ends with a name, which may end no
expression, so a row whose last kind may end one can be gone on with by anything that is no part of
a word.
-/

namespace RuleCheck

open Form (isWordChar isPathChar)

/-! ### What is clear of what comes behind it -/

/-- Behind anything but a path a word ends where no word character is. -/
theorem clear_of_not_isWordChar {k : Token} {w v : Text} (hb : k.kind ≠ .blank)
    (hp : k.kind ≠ .path) (ho : k.kind = .operator → v ≠ [])
    (hv : ∀ c ∈ v.head?, ¬ isWordChar c) : Clear k w v := by
  cases k with
  | blank | path => contradiction
  | operator => exact fun _ => ho rfl
  | number => exact fun c hc hd => hv c hc (isWordChar_of_isDigit hd)
  | var => exact fun c hc hd => hv c hc (isWordChar_of_isAlpha hd)
  | function => exact hv
  | _ => trivial

/-- A right parenthesis and a comma end whatever comes before them, but a blank. -/
theorem clear_of_stop {k : Token} {w t : Text} {c : Char} (hc : c = ')' ∨ c = ',')
    (hb : k.kind ≠ .blank) : Clear k w (c :: t) := by
  by_cases hp : k.kind = .path
  · cases k with
    | path =>
        intro d hd
        cases hd
        rcases hc with rfl | rfl <;> decide
    | _ => cases hp
  · refine clear_of_not_isWordChar hb hp (fun _ => List.cons_ne_nil _ _) fun d hd => ?_
    cases hd
    rcases hc with rfl | rfl <;> decide

/-- The last lexeme of a row is clear of what lies behind the row. -/
theorem Lexes.clear_last {t t' : Text} {r : List Lexeme} (h : Lexes t r t') :
    ∀ l ∈ r.getLast?, l.kind ≠ .blank → ∀ w, Clear l.token w t' := by
  intro l hl hb w
  obtain ⟨r, rfl⟩ := List.getLast?_eq_some_iff.mp hl
  obtain ⟨u, rfl, -⟩ := h.exists_append
  obtain ⟨v, x, rfl, -, hc, -⟩ := h.concat
  exact hc.congr hb rfl

/-! ### A word at the end of a text -/

/-- An operator that begins like a blank is a name between two blanks. -/
theorem Operator.exists_name {op : Operator} {c : Char} {t : Text} (hc : c.isWhitespace)
    (h : op.spelling <+: c :: t) :
    ∃ name, op.spelling = ' ' :: (name ++ [' ']) ∧ Spells (.function name) name := by
  obtain ⟨r, hr⟩ := h
  cases op with
  | equal | barBar | ampAmp =>
      obtain ⟨rfl, -⟩ := List.cons.inj hr
      cases hc
  | or => exact ⟨"or".toList, rfl, .function (by decide) (List.all_eq_true.mp rfl) (by decide)⟩
  | orUpper => exact ⟨"OR".toList, rfl, .function (by decide) (List.all_eq_true.mp rfl) (by decide)⟩
  | and => exact ⟨"and".toList, rfl, .function (by decide) (List.all_eq_true.mp rfl) (by decide)⟩
  | andUpper =>
      exact ⟨"AND".toList, rfl, .function (by decide) (List.all_eq_true.mp rfl) (by decide)⟩

theorem Spells.isWordChar_of_mem {name : Text} (h : Spells (.function name) name) :
    ∀ c ∈ name, isWordChar c := by
  cases h with
  | function _ h _ => exact h

/-- A text that ends inside a word and goes on with no word character holds the word. -/
theorem eq_or_eq_of_prefix_append {name x v : Text} (hw : ∀ c ∈ name, isWordChar c)
    (hv : ∀ c ∈ v.head?, ¬ isWordChar c) (h : name ++ [' '] <+: x ++ v)
    (hx : x <+: name ++ [' ']) : x = name ∨ x = name ++ [' '] := by
  obtain ⟨y, hy⟩ := hx
  rcases List.eq_nil_or_concat y with rfl | ⟨y, c, rfl⟩
  · rw [List.append_nil] at hy
    exact .inr hy
  · rw [List.concat_eq_append] at hy
    have hn : x ++ y = name := by
      rw [← List.append_assoc] at hy
      exact (List.append_inj' hy rfl).1
    rw [← hy, List.prefix_append_right_inj] at h
    cases y with
    | nil => exact .inl (by simpa using hn)
    | cons d y =>
        -- what goes on with the word is part of it
        obtain ⟨v, rfl⟩ := h
        exact absurd (hw d (by simp [← hn])) (hv d rfl)

/-- Where a blank is one because the text ends, there is a word behind it. -/
theorem word_at_end {op : Operator} {c : Char} {x v : Text} (hc : c.isWhitespace)
    (hv : ∀ d ∈ v.head?, ¬ isWordChar d) (hn : ¬ op.begins (c :: x))
    (h : op.begins (c :: (x ++ v))) :
    ∃ name, Spells (.function name) name ∧ (x = name ∨ x = name ++ [' ']) := by
  obtain ⟨hp, -⟩ := Operator.begins_iff.mp h
  obtain ⟨name, hop, hs⟩ := Operator.exists_name hc hp
  refine ⟨name, hs, ?_⟩
  rw [hop, List.cons_prefix_cons] at hp
  obtain ⟨rfl, hp⟩ := hp
  rcases List.prefix_or_prefix_of_prefix hp (List.prefix_append x v) with hx | hx
  · -- the operator lacks only what has to follow it
    right
    refine (hx.eq_of_length_le ?_).symm
    by_contra hlt
    refine hn (Operator.begins_iff.mpr ⟨?_, fun _ => ?_⟩)
    · rw [hop, List.cons_prefix_cons]
      exact ⟨rfl, hx⟩
    · rw [hop, List.length_cons, List.length_cons]
      omega
  · exact eq_or_eq_of_prefix_append hs.isWordChar_of_mem hv hp hx

theorem kinds_of_word {name x : Text} {r : List Lexeme} (hs : Spells (.function name) name)
    (hx : x = name ∨ x = name ++ [' ']) (h : Lexes x r []) : kinds r = [.function] := by
  have hb : Lexes [' '] [⟨.blank, 1⟩] [] :=
    .spell (w := [' ']) (.blank rfl) (fun op => by cases op <;> decide) (.nil [])
  rcases hx with rfl | rfl
  · have := Lexes.spell (t := []) hs nofun (.nil [])
    rw [List.append_nil] at this
    rw [h.eq this]
    rfl
  · have hc : Clear (.function name) name [' '] := by
      intro c hc
      cases hc
      decide
    rw [h.eq (.spell hs hc hb)]
    rfl

/-! ### What is read again -/

/-- **A text of lexemes can be gone on with**, if its last kind may end an expression and the last
lexeme is clear of what comes. -/
theorem Lexes.extend {t v : Text} {r : List Lexeme} (h : Lexes t r [])
    (he : ∀ k ∈ (kinds r).getLast?, k.mayEnd) (hv : ∀ c ∈ v.head?, ¬ isWordChar c)
    (hl : ∀ l ∈ r.getLast?, l.kind ≠ .blank → ∀ w, Clear l.token w v) : Lexes (t ++ v) r v := by
  generalize ht : ([] : Text) = t' at h
  induction h with
  | nil =>
      subst ht
      exact .nil v
  | @cons t t' l r h hr ih =>
      obtain ⟨w, x, rfl, hw, hs, hc⟩ := stands_of_read h
      rw [← hw, List.drop_left] at hr ih
      have he' : ∀ k ∈ (kinds r).getLast?, k.mayEnd :=
        fun k hk => he k (mem_getLast?_kinds_cons hk)
      have hc' : Clear l.token w (x ++ v) := by
        by_cases hb : l.kind = .blank
        · obtain ⟨k, n⟩ := l
          obtain rfl := eq_blank_of_kind hb
          cases hs with
          | @blank c hc₀ =>
              intro op hop
              obtain ⟨name, hn, hx⟩ := word_at_end hc₀ hv (hc op) hop
              subst ht
              -- the text would end with a name
              rw [kinds_of_word hn hx hr] at he'
              cases he' .function rfl
        · cases x with
          | nil =>
              subst ht
              obtain rfl := hr.eq_nil
              exact hl l rfl hb w
          | cons c x => exact hc.congr hb rfl
      have := Lexes.spell hs hc' (ih he' (fun j hj => hl j (List.mem_getLast?_cons hj)) ht)
      rw [List.append_assoc]
      rwa [hw] at this

end RuleCheck
