import RuleCheck.Proofs.Lexeme.First
import RuleCheck.Proofs.Text.Span

/-!
# Proofs — Lexeme — spellings

A token is spelled by the characters that it takes (`Spells`), whatever stands behind them, and it
is read there if what stands behind is no part of it (`Clear`): no digit behind a number, no word
character behind a name, no letter behind a variable, nothing but a parenthesis or a comma behind a
path, something behind a word operator, and nothing behind a blank that makes an operator of it.

**Reading is local.**  A lexeme is read at the beginning of a text if and only if the text is a
spelling of its token with something behind it that the spelling is clear of (`stands_of_read`,
`read_append`).  So a lexeme read once is read again with another text behind it, if only the
spelling is clear of that text too (`Clear.of_append`).
-/

namespace RuleCheck

open Form (isWordChar isPathChar truthValues)

/-- What a token looks like in a text. -/
inductive Spells : Token → Text → Prop where
  | boolean {s : Text} (h : s ∈ truthValues) : Spells (.boolean s) s
  | number {ds : Text} (ne : ds ≠ []) (h : ∀ c ∈ ds, c.isDigit) :
      Spells (.number (Numeral.magnitude ds)) ds
  | string {raw content : Text} (hb : Literal.body? (raw ++ ['\'']) = some raw)
      (hd : Literal.decode 1 raw = .ok content) : Spells (.string content) (Literal.enclose raw)
  | var {letters : Text} (ne : letters ≠ []) (h : ∀ c ∈ letters, c.isAlpha) :
      Spells (.var ('$' :: letters)) ('$' :: letters)
  | path {r : Text} (h : ∀ c ∈ r, isPathChar c) (hs : (r.splitOn '/').all (· ≠ [])) :
      Spells (.path ('.' :: '/' :: r)) ('.' :: '/' :: r)
  | function {c : Char} {name : Text} (hd : ¬ c.isDigit) (h : ∀ d ∈ c :: name, isWordChar d)
      (hb : ∀ s ∈ truthValues, ¬ s <+: c :: name) : Spells (.function (c :: name)) (c :: name)
  | operator (op : Operator) : Spells (.operator op) op.spelling
  | leftParen : Spells .leftParen ['(']
  | rightParen : Spells .rightParen [')']
  | comma : Spells .comma [',']
  | plus : Spells .plus ['+']
  | minus : Spells .minus ['-']
  | blank {c : Char} (h : c.isWhitespace) : Spells .blank [c]

theorem Spells.ne_nil {k : Token} {w : Text} (h : Spells k w) : w ≠ [] := by
  cases h with
  | boolean h =>
      rintro rfl
      revert h
      decide
  | number ne => exact ne
  | operator op => cases op <;> decide
  | _ => exact List.cons_ne_nil _ _

/-- Whether a token spelled by `w` is read as such with `r` behind it. -/
def Clear : Token → Text → Text → Prop
  | .number _,    _, r => ∀ c ∈ r.head?, ¬ c.isDigit
  | .function _,  _, r => ∀ c ∈ r.head?, ¬ isWordChar c
  | .var _,       _, r => ∀ c ∈ r.head?, ¬ c.isAlpha
  | .path _,      _, r => ∀ c ∈ r.head?, ¬ isPathChar c
  | .operator op, _, r => op.isWord → r ≠ []
  | .blank,       w, r => ∀ op : Operator, ¬ op.begins (w ++ r)
  | _,            _, _ => True

/-! ### The body of a literal -/

namespace Literal

/-- The body of a literal is read up to its quote, whatever stands behind that. -/
theorem bodyFrom_eq_some {escaping : Bool} {t raw : Text} (h : bodyFrom escaping t = some raw) :
    ∃ r, t = raw ++ '\'' :: r ∧ ∀ s, bodyFrom escaping (raw ++ '\'' :: s) = some raw := by
  induction t generalizing escaping raw with
  | nil => cases h
  | cons c t ih =>
      rw [bodyFrom] at h
      split at h
      · rename_i hc
        obtain ⟨rfl, rfl⟩ := hc
        cases h
        exact ⟨t, rfl, fun s => rfl⟩
      · rename_i hc
        obtain ⟨u, hu, rfl⟩ := Option.map_eq_some_iff.mp h
        obtain ⟨r, rfl, hs⟩ := ih hu
        refine ⟨r, rfl, fun s => ?_⟩
        rw [List.cons_append, bodyFrom, if_neg hc, hs s, Option.map_some]

theorem body?_append {raw : Text} (h : body? (raw ++ ['\'']) = some raw) (r : Text) :
    body? (raw ++ '\'' :: r) = some raw := by
  obtain ⟨-, -, hs⟩ := bodyFrom_eq_some h
  exact hs r

end Literal

/-! ### What is spelled is read -/

namespace Form

theorem begins_spelling_append {op : Operator} {r : Text} (h : op.isWord → r ≠ []) :
    op.begins (op.spelling ++ r) := by
  refine Operator.begins_iff.mpr ⟨List.prefix_append _ _, fun hw => ?_⟩
  rw [List.length_append]
  exact Nat.lt_add_of_pos_right (List.length_pos_iff.mpr (h hw))

/-- At most one operator begins a text. -/
theorem eq_of_begins {a b : Operator} {t : Text} (ha : a.begins t) (hb : b.begins t) : a = b := by
  rcases List.prefix_or_prefix_of_prefix (Operator.begins_iff.mp ha).1
    (Operator.begins_iff.mp hb).1 with h | h
  · exact Operator.eq_of_spelling_prefix (List.isPrefixOf_iff_prefix.mpr h)
  · exact (Operator.eq_of_spelling_prefix (List.isPrefixOf_iff_prefix.mpr h)).symm

theorem readOperator_of_begins {op : Operator} {t : Text} (h : op.begins t) :
    readOperator t = .lexeme ⟨.operator op, op.spelling.length⟩ := by
  rw [readOperator]
  split
  · rename_i o ho
    have hb : o.begins t := by simpa using List.find?_some ho
    rw [eq_of_begins hb h]
  · rename_i hn
    exact absurd h (List.find?_eq_none.mp hn op op.mem_all)

theorem readNumber_append {ds r : Text} (ne : ds ≠ []) (h : ∀ c ∈ ds, c.isDigit)
    (hr : ∀ c ∈ r.head?, ¬ c.isDigit) :
    readNumber (ds ++ r) = .lexeme ⟨.number (Numeral.magnitude ds), ds.length⟩ := by
  rw [readNumber, takeWhile_append_of_stop h hr]
  split
  · exact absurd rfl ne
  · rfl

theorem readString_append {raw content r : Text} (hb : Literal.body? (raw ++ ['\'']) = some raw)
    (hd : Literal.decode 1 raw = .ok content) :
    readString (Literal.enclose raw ++ r) =
      .lexeme ⟨.string content, (Literal.enclose raw).length⟩ := by
  have he : Literal.enclose raw ++ r = '\'' :: (raw ++ '\'' :: r) := by simp [Literal.enclose]
  simp only [he, readString, Literal.body?_append hb, hd]
  simp [Literal.enclose]

theorem readBoolean_append {s r : Text} (h : s ∈ truthValues) :
    readBoolean (s ++ r) = .lexeme ⟨.boolean s, s.length⟩ := by
  simp only [truthValues, List.mem_cons, List.not_mem_nil, or_false] at h
  rcases h with rfl | rfl | rfl | rfl <;> rfl

theorem readFunction_append {c : Char} {name r : Text} (hd : ¬ c.isDigit)
    (h : ∀ d ∈ c :: name, isWordChar d) (hr : ∀ d ∈ r.head?, ¬ isWordChar d) :
    readFunction (c :: name ++ r) = .lexeme ⟨.function (c :: name), (c :: name).length⟩ := by
  simp only [readFunction, takeWhile_append_of_stop h hr, if_neg hd, Reading.spelled]

/-- A truth value that begins a word and more begins the word. -/
theorem prefix_of_prefix_append {s w r : Text} (hs : s ∈ truthValues)
    (hr : ∀ d ∈ r.head?, ¬ isWordChar d) (h : s <+: w ++ r) : s <+: w := by
  have hw : truthValues.all (·.all isWordChar) := rfl
  simp only [List.all_eq_true] at hw
  rcases List.prefix_or_prefix_of_prefix h (List.prefix_append w r) with h' | ⟨u, rfl⟩
  · exact h'
  · have hu : u <+: r := (List.prefix_append_right_inj w).mp h
    cases u with
    | nil => exact ⟨[], by simp⟩
    | cons d u =>
        obtain ⟨r', rfl⟩ := hu
        exact absurd (hw _ hs d (by simp)) (hr d rfl)

theorem readVar_append {letters r : Text} (ne : letters ≠ []) (h : ∀ c ∈ letters, c.isAlpha)
    (hr : ∀ c ∈ r.head?, ¬ c.isAlpha) :
    readVar ('$' :: letters ++ r) = .lexeme ⟨.var ('$' :: letters), ('$' :: letters).length⟩ := by
  rw [List.cons_append, readVar, takeWhile_append_of_stop h hr]
  split
  · exact absurd rfl ne
  · rfl

theorem readPath_append {p r : Text} (h : ∀ c ∈ p, isPathChar c)
    (hs : (p.splitOn '/').all (· ≠ [])) (hr : ∀ c ∈ r.head?, ¬ isPathChar c) :
    readPath ('.' :: '/' :: p ++ r) =
      .lexeme ⟨.path ('.' :: '/' :: p), ('.' :: '/' :: p).length⟩ := by
  simp only [List.cons_append, readPath, takeWhile_append_of_stop h hr, if_pos hs, Reading.spelled]

end Form

theorem read_of_form {f : Form} {t : Text} {l : Lexeme} (h : f.read t = .lexeme l)
    (hs : ∀ g : Form, Form.Shadows g f → g.read t = .nothing) : read t = .lexeme l := by
  rw [read_eq_of_form (f := f) (by simp [h]) hs, h]

/-- **What is spelled is read**, with any text behind it that the spelling is clear of. -/
theorem read_append {k : Token} {w r : Text} (hs : Spells k w) (hc : Clear k w r) :
    read (w ++ r) = .lexeme ⟨k, w.length⟩ := by
  cases hs with
  | boolean h => exact read_of_form (f := .boolean) (Form.readBoolean_append h) nofun
  | number ne h => exact read_of_form (f := .number) (Form.readNumber_append ne h hc) nofun
  | string hb hd => exact read_of_form (f := .string) (Form.readString_append hb hd) nofun
  | var ne h => exact read_of_form (f := .var) (Form.readVar_append ne h hc) nofun
  | path h hs => exact read_of_form (f := .path) (Form.readPath_append h hs hc) nofun
  | function hd h hb =>
      refine read_of_form (f := .function) (Form.readFunction_append hd h hc) fun g hg => ?_
      cases hg
      exact Form.readBoolean_eq_nothing fun s hs hp =>
        hb s hs (Form.prefix_of_prefix_append hs hc hp)
  | operator op =>
      exact read_of_form (f := .operator)
        (Form.readOperator_of_begins (Form.begins_spelling_append hc)) nofun
  | leftParen => exact read_of_form (f := .leftParen) rfl nofun
  | rightParen => exact read_of_form (f := .rightParen) rfl nofun
  | comma => exact read_of_form (f := .comma) rfl nofun
  | plus => exact read_of_form (f := .sign) rfl nofun
  | minus => exact read_of_form (f := .sign) rfl nofun
  | blank h =>
      refine read_of_form (f := .blank) (if_pos h) fun g hg => ?_
      cases hg
      exact Form.readOperator_eq_nothing hc

/-! ### What is read is spelled -/

/-- A text that begins with a spelling of the lexeme's token and is clear of it behind that. -/
def Stands (l : Lexeme) (t : Text) : Prop :=
  ∃ w r, t = w ++ r ∧ w.length = l.width ∧ Spells l.token w ∧ Clear l.token w r

namespace Form

theorem stands_of_readOperator {t : Text} {l : Lexeme} (h : readOperator t = .lexeme l) :
    Stands l t := by
  rw [readOperator] at h
  split at h
  · rename_i op hop
    have hb : op.begins t := by simpa using List.find?_some hop
    obtain ⟨⟨r, rfl⟩, hlen⟩ := Operator.begins_iff.mp hb
    cases h
    refine ⟨op.spelling, r, rfl, rfl, .operator op, fun hw hr => ?_⟩
    subst hr
    simpa using hlen hw
  · cases h

theorem stands_of_readSign {t : Text} {l : Lexeme} (h : readSign t = .lexeme l) : Stands l t := by
  rw [readSign.eq_def] at h
  split at h <;> cases h
  · exact ⟨['+'], _, rfl, rfl, .plus, trivial⟩
  · exact ⟨['-'], _, rfl, rfl, .minus, trivial⟩

theorem stands_of_readNumber {t : Text} {l : Lexeme} (h : readNumber t = .lexeme l) :
    Stands l t := by
  obtain ⟨r, ht, hw, hr⟩ := exists_run Char.isDigit t
  rw [readNumber] at h
  split at h <;> cases h
  rename_i ne
  exact ⟨_, r, ht, rfl, .number ne hw, hr⟩

theorem stands_of_readString {t : Text} {l : Lexeme} (h : readString t = .lexeme l) :
    Stands l t := by
  rw [readString.eq_def] at h
  split at h
  · rename_i t
    split at h
    · cases h
    · rename_i raw hraw
      obtain ⟨r, rfl, hs⟩ := Literal.bodyFrom_eq_some hraw
      split at h <;> cases h
      rename_i content hd
      exact ⟨Literal.enclose raw, r, by simp [Literal.enclose], by simp [Literal.enclose],
        .string (hs []) hd, trivial⟩
  · cases h

theorem stands_of_readBoolean {t : Text} {l : Lexeme} (h : readBoolean t = .lexeme l) :
    Stands l t := by
  rw [readBoolean] at h
  split at h <;> cases h
  rename_i s hs
  obtain ⟨r, rfl⟩ : s <+: t := by simpa using List.find?_some hs
  exact ⟨s, r, rfl, rfl, .boolean (List.mem_of_find?_eq_some hs), trivial⟩

theorem stands_of_readFunction {t : Text} {l : Lexeme} (h : readFunction t = .lexeme l)
    (hb : readBoolean t = .nothing) : Stands l t := by
  obtain ⟨r, ht, hw, hr⟩ := exists_run isWordChar t
  rw [readFunction] at h
  split at h
  · cases h
  · rename_i c name hn
    rw [hn] at ht hw
    split at h <;> cases h
    rename_i hd
    refine ⟨_, r, ht, rfl, .function hd hw fun s hs hp => ?_, hr⟩
    -- a truth value would have been read first
    obtain ⟨u, hu⟩ := hp
    have : t = s ++ (u ++ r) := by rw [ht, ← hu, List.append_assoc]
    rw [this, readBoolean_append hs] at hb
    cases hb

theorem stands_of_readChar {c : Char} {k : Token} {t : Text} {l : Lexeme}
    (h : readChar c k t = .lexeme l) (hs : Spells k [c]) (hc : ∀ r, Clear k [c] r) :
    Stands l t := by
  cases t with
  | nil => cases h
  | cons d r =>
      rw [readChar] at h
      split at h <;> cases h
      rename_i hd
      exact ⟨[c], r, by rw [hd]; rfl, rfl, hs, hc r⟩

theorem stands_of_readVar {t : Text} {l : Lexeme} (h : readVar t = .lexeme l) : Stands l t := by
  rw [readVar.eq_def] at h
  split at h
  · rename_i t
    obtain ⟨r, ht, hw, hr⟩ := exists_run Char.isAlpha t
    split at h <;> cases h
    rename_i ne
    exact ⟨_, r, congrArg ('$' :: ·) ht, rfl, .var ne hw, hr⟩
  · cases h

theorem stands_of_readPath {t : Text} {l : Lexeme} (h : readPath t = .lexeme l) : Stands l t := by
  rw [readPath.eq_def] at h
  split at h
  · rename_i t
    obtain ⟨r, ht, hw, hr⟩ := exists_run isPathChar t
    split at h <;> cases h
    rename_i hs
    exact ⟨_, r, congrArg ('.' :: '/' :: ·) ht, rfl, .path hw hs, hr⟩
  · cases h

theorem stands_of_readBlank {t : Text} {l : Lexeme} (h : readBlank t = .lexeme l)
    (ho : readOperator t = .nothing) : Stands l t := by
  cases t with
  | nil => cases h
  | cons c r =>
      rw [readBlank] at h
      split at h <;> cases h
      rename_i hc
      refine ⟨[c], r, rfl, rfl, .blank hc, fun op hop => ?_⟩
      -- and so would an operator
      have hr : readOperator (c :: r) = .lexeme ⟨.operator op, _⟩ := readOperator_of_begins hop
      rw [ho] at hr
      cases hr

end Form

/-- **What is read is spelled**, and what stands behind it is no part of it. -/
theorem stands_of_read {t : Text} {l : Lexeme} (h : read t = .lexeme l) : Stands l t := by
  obtain ⟨f, hf, hs⟩ := exists_form_of_read h
  cases f with
  | operator => exact Form.stands_of_readOperator hf
  | sign => exact Form.stands_of_readSign hf
  | number => exact Form.stands_of_readNumber hf
  | string => exact Form.stands_of_readString hf
  | boolean => exact Form.stands_of_readBoolean hf
  | function => exact Form.stands_of_readFunction hf (hs .boolean .function)
  | leftParen => exact Form.stands_of_readChar hf .leftParen fun _ => trivial
  | rightParen => exact Form.stands_of_readChar hf .rightParen fun _ => trivial
  | comma => exact Form.stands_of_readChar hf .comma fun _ => trivial
  | var => exact Form.stands_of_readVar hf
  | path => exact Form.stands_of_readPath hf
  | blank => exact Form.stands_of_readBlank hf (hs .operator .blank)

/-! ### Another text behind -/

/-- A text that does not begin like the inside of an operator. -/
def Apart (t : Text) : Prop := ∀ c ∈ t.head?, ∀ op : Operator, c ∉ op.spelling

/-- An operator that would begin with such a text behind begins already with any other. -/
theorem begins_append_of_apart {op : Operator} {w t v : Text} (hv : Apart v) (ne : t ≠ [])
    (h : op.begins (w ++ v)) : op.begins (w ++ t) := by
  obtain ⟨hp, -⟩ := Operator.begins_iff.mp h
  have hw : op.spelling <+: w := by
    rcases List.prefix_or_prefix_of_prefix hp (List.prefix_append w v) with hw | ⟨u, hu⟩
    · exact hw
    · rw [← hu, List.prefix_append_right_inj] at hp
      cases u with
      | nil => exact ⟨[], by simpa using hu.symm⟩
      | cons c u =>
          -- the operator would take the first character of the text
          obtain ⟨v, rfl⟩ := hp
          exact absurd (hu ▸ List.mem_append_right w (List.mem_cons_self ..)) (hv c rfl op)
  refine Operator.begins_iff.mpr ⟨hw.trans (List.prefix_append w t), fun _ => ?_⟩
  have := hw.length_le
  have := List.length_pos_iff.mpr ne
  simp only [List.length_append]
  omega

theorem eq_blank_of_kind {k : Token} (h : k.kind = .blank) : k = .blank := by
  cases k with
  | blank => rfl
  | _ => cases h

/-- Only a blank sees further than the first character behind it. -/
theorem Clear.congr {k : Token} {w w' x y : Text} (h : Clear k w x) (hk : k.kind ≠ .blank)
    (hxy : x.head? = y.head?) : Clear k w' y := by
  cases k with
  | blank => contradiction
  | operator =>
      rintro hw rfl
      exact h hw (List.head?_eq_none_iff.mp hxy)
  | number | function | var | path =>
      intro c hc
      exact h c (hxy ▸ hc)
  | _ => trivial

/-- A spelling that is clear of what stands behind it stays so if something else comes at a later
place, and if that place is right behind it then by being clear of that. -/
theorem Clear.of_append {k : Token} {w u t v : Text} (h : Clear k w (u ++ t)) (ne : t ≠ [])
    (hv : Apart v) (hc : u = [] → k.kind ≠ .blank → Clear k w v) : Clear k w (u ++ v) := by
  by_cases hk : k.kind = .blank
  · obtain rfl := eq_blank_of_kind hk
    intro op hop
    rw [← List.append_assoc] at hop
    refine h op ?_
    rw [← List.append_assoc]
    exact begins_append_of_apart hv ne hop
  · cases u with
    | nil => exact hc rfl hk
    | cons c u => exact h.congr hk rfl

end RuleCheck
