import Mathlib.Data.List.TakeWhile
import Mathlib.Tactic.ByContra
import RuleCheck.Lexeme.Form

/-!
# Proofs — Lexeme — first characters

The first character of a text says which forms can find anything there (`Form.mayBegin_of_read`).
Two forms that can begin with one character are the same form, except that a word operator begins
like a blank and a truth value like a function's name (`Form.eq_or_overlap`).  So what any one form
finds is what stands at the beginning of the text, unless it is a blank where an operator begins or
a name where a truth value does (`read_eq_of_form`).
-/

namespace RuleCheck

open Form (isWordChar)

theorem isWordChar_of_isDigit {c : Char} (h : c.isDigit) : isWordChar c := by
  simp [isWordChar, Char.isAlphanum, h]

theorem isWordChar_of_isAlpha {c : Char} (h : c.isAlpha) : isWordChar c := by
  simp [isWordChar, Char.isAlphanum, h]

theorem toNat_of_isDigit {c : Char} (h : c.isDigit) : 0x30 ≤ c.toNat ∧ c.toNat ≤ 0x39 := by
  obtain ⟨hl, hh⟩ := Bool.and_eq_true_iff.mp h
  exact ⟨of_decide_eq_true hl, of_decide_eq_true hh⟩

theorem toNat_of_isAlpha {c : Char} (h : c.isAlpha) :
    (0x41 ≤ c.toNat ∧ c.toNat ≤ 0x5A) ∨ (0x61 ≤ c.toNat ∧ c.toNat ≤ 0x7A) := by
  rcases Bool.or_eq_true_iff.mp h with h | h
  · exact .inl (of_decide_eq_true h)
  · obtain ⟨hl, hh⟩ := Bool.and_eq_true_iff.mp h
    exact .inr ⟨of_decide_eq_true hl, of_decide_eq_true hh⟩

theorem not_isDigit_of_isAlpha {c : Char} (h : c.isAlpha) : ¬ c.isDigit := by
  intro hd
  have := toNat_of_isAlpha h
  have := toNat_of_isDigit hd
  omega

theorem toNat_of_isWordChar {c : Char} (h : isWordChar c) : 0x30 ≤ c.toNat ∧ c.toNat ≤ 0x7A := by
  rcases Bool.or_eq_true_iff.mp h with h | h
  · rcases Bool.or_eq_true_iff.mp h with ha | hd
    · have := toNat_of_isAlpha ha
      omega
    · have := toNat_of_isDigit hd
      omega
  · obtain rfl : c = '_' := of_decide_eq_true h
    decide

theorem not_isWhitespace_of_isWordChar {c : Char} (h : isWordChar c) : ¬ c.isWhitespace := by
  intro hw
  simp only [Char.isWhitespace, Bool.or_eq_true, decide_eq_true_eq, or_assoc] at hw
  rcases hw with rfl | rfl | rfl | rfl <;> cases h

theorem not_isWordChar_of_isWhitespace {c : Char} (h : c.isWhitespace) : ¬ isWordChar c :=
  fun hw => not_isWhitespace_of_isWordChar hw h

theorem Operator.begins_iff {op : Operator} {t : Text} :
    op.begins t ↔ op.spelling <+: t ∧ (op.isWord → op.spelling.length < t.length) := by
  simp [begins, imp_iff_not_or]

namespace Form

/-- Whether a text in which the form finds anything can begin with the character. -/
def mayBegin : Form → Char → Bool
  | operator,   c => c = '=' || c = '|' || c = '&' || c = ' '
  | sign,       c => c = '+' || c = '-'
  | number,     c => c.isDigit
  | string,     c => c = '\''
  | boolean,    c => c = 't' || c = 'T' || c = 'f' || c = 'F'
  | function,   c => isWordChar c && !c.isDigit
  | leftParen,  c => c = '('
  | rightParen, c => c = ')'
  | comma,      c => c = ','
  | var,        c => c = '$'
  | path,       c => c = '.'
  | blank,      c => c.isWhitespace

/-- Characters of words are what numbers and names begin with. -/
theorem exists_mayBegin_of_isWordChar {c : Char} (h : isWordChar c) : ∃ f : Form, f.mayBegin c := by
  by_cases hd : c.isDigit
  · exact ⟨number, hd⟩
  · exact ⟨function, by simp [mayBegin, h, hd]⟩

/-- All that is no blank begins with a character between the exclamation mark and the tilde. -/
theorem toNat_of_mayBegin {f : Form} {c : Char} (h : f.mayBegin c) (hb : ¬ c.isWhitespace) :
    0x21 ≤ c.toNat ∧ c.toNat ≤ 0x7E := by
  have hword : isWordChar c → 0x21 ≤ c.toNat ∧ c.toNat ≤ 0x7E := fun hw => by
    have := toNat_of_isWordChar hw
    omega
  cases f with
  | operator =>
      simp only [mayBegin, Bool.or_eq_true, decide_eq_true_eq, or_assoc] at h
      rcases h with rfl | rfl | rfl | rfl
      · decide
      · decide
      · decide
      · exact absurd rfl hb
  | sign =>
      simp only [mayBegin, Bool.or_eq_true, decide_eq_true_eq] at h
      rcases h with rfl | rfl <;> decide
  | boolean =>
      simp only [mayBegin, Bool.or_eq_true, decide_eq_true_eq, or_assoc] at h
      rcases h with rfl | rfl | rfl | rfl <;> decide
  | number => exact hword (isWordChar_of_isDigit h)
  | function => exact hword (Bool.and_eq_true_iff.mp h).1
  | blank => exact absurd h hb
  | string | leftParen | rightParen | comma | var | path =>
      simp only [mayBegin, decide_eq_true_eq] at h
      subst h
      decide

/-- The forms that come first where another form can begin with the same character. -/
inductive Shadows : Form → Form → Prop where
  | blank : Shadows operator blank
  | function : Shadows boolean function

/-- The form that a character belongs to, other than a word operator or a truth value. -/
def ofChar (c : Char) : Form :=
  if c.isWhitespace then blank
  else if c.isDigit then number
  else if isWordChar c then function
  else match c with
    | '+' | '-' => sign
    | '\'' => string
    | '(' => leftParen
    | ')' => rightParen
    | ',' => comma
    | '$' => var
    | '.' => path
    | _   => operator

theorem ofChar_of_mayBegin {f : Form} {c : Char} (h : f.mayBegin c) :
    ofChar c = f ∨ Shadows f (ofChar c) := by
  cases f with
  | operator =>
      simp only [mayBegin, Bool.or_eq_true, decide_eq_true_eq, or_assoc] at h
      rcases h with rfl | rfl | rfl | rfl
      · exact .inl rfl
      · exact .inl rfl
      · exact .inl rfl
      · exact .inr .blank
  | sign =>
      simp only [mayBegin, Bool.or_eq_true, decide_eq_true_eq] at h
      rcases h with rfl | rfl <;> exact .inl rfl
  | boolean =>
      simp only [mayBegin, Bool.or_eq_true, decide_eq_true_eq, or_assoc] at h
      rcases h with rfl | rfl | rfl | rfl <;> exact .inr .function
  | number =>
      have hd : c.isDigit := h
      have hw := not_isWhitespace_of_isWordChar (isWordChar_of_isDigit hd)
      exact .inl (by simp [ofChar, hw, hd])
  | function =>
      simp only [mayBegin, Bool.and_eq_true, Bool.not_eq_true'] at h
      have hw := not_isWhitespace_of_isWordChar h.1
      exact .inl (by simp [ofChar, hw, h])
  | blank =>
      have hw : c.isWhitespace := h
      exact .inl (by simp [ofChar, hw])
  | string | leftParen | rightParen | comma | var | path =>
      simp only [mayBegin, decide_eq_true_eq] at h
      subst h
      exact .inl rfl

/-- **Forms overlap in two pairs only.** -/
theorem eq_or_overlap {f g : Form} {c : Char} (hf : f.mayBegin c) (hg : g.mayBegin c) :
    f = g ∨ Shadows f g ∨ Shadows g f := by
  rcases ofChar_of_mayBegin hf with ef | sf <;> rcases ofChar_of_mayBegin hg with eg | sg
  · exact .inl (ef.symm.trans eg)
  · exact .inr (.inr (ef ▸ sg))
  · exact .inr (.inl (eg ▸ sf))
  · generalize ofChar c = o at sf sg
    cases sf <;> cases sg <;> exact .inl rfl

@[simp] theorem read_nil (f : Form) : f.read [] = .nothing := by cases f <;> decide

theorem mayBegin_of_begins {op : Operator} {c : Char} {t : Text} (h : op.begins (c :: t)) :
    operator.mayBegin c := by
  obtain ⟨⟨r, hr⟩, -⟩ := Operator.begins_iff.mp h
  cases op <;> obtain ⟨rfl, -⟩ := List.cons.inj hr <;> rfl

theorem mayBegin_of_truthValue {s t : Text} {c : Char} (hs : s ∈ truthValues) (h : s <+: c :: t) :
    boolean.mayBegin c := by
  obtain ⟨r, hr⟩ := h
  simp only [truthValues, List.mem_cons, List.not_mem_nil, or_false] at hs
  rcases hs with rfl | rfl | rfl | rfl <;> obtain ⟨rfl, -⟩ := List.cons.inj hr <;> rfl

theorem readOperator_eq_nothing {t : Text} (h : ∀ op : Operator, ¬ op.begins t) :
    readOperator t = .nothing := by
  have hn : Operator.all.find? (·.begins t) = none :=
    List.find?_eq_none.mpr fun op _ => h op
  rw [readOperator, hn]

theorem readBoolean_eq_nothing {t : Text} (h : ∀ s ∈ truthValues, ¬ s <+: t) :
    readBoolean t = .nothing := by
  have hn : truthValues.find? (·.isPrefixOf t) = none :=
    List.find?_eq_none.mpr fun s hs => by simpa using h s hs
  rw [readBoolean, hn]

/-- A form finds nothing in a text that begins with none of its characters. -/
theorem mayBegin_of_read {f : Form} {c : Char} {t : Text} (h : f.read (c :: t) ≠ .nothing) :
    f.mayBegin c := by
  by_contra hc
  refine h ?_
  cases f with
  | operator => exact readOperator_eq_nothing fun op hop => hc (mayBegin_of_begins hop)
  | boolean => exact readBoolean_eq_nothing fun s hs hp => hc (mayBegin_of_truthValue hs hp)
  | number =>
      have hd : ¬ c.isDigit := hc
      simp only [read, readNumber, List.takeWhile_cons_of_neg hd]
  | function =>
      simp only [mayBegin, Bool.and_eq_true, Bool.not_eq_true', not_and, Bool.not_eq_false] at hc
      by_cases hw : isWordChar c
      · simp only [read, readFunction, List.takeWhile_cons_of_pos hw, hc hw, if_true]
      · simp only [read, readFunction, List.takeWhile_cons_of_neg hw]
  | blank =>
      have hw : ¬ c.isWhitespace := hc
      simp only [read, readBlank, if_neg hw]
  | leftParen | rightParen | comma =>
      simp only [mayBegin, decide_eq_true_eq] at hc
      simp only [read, readChar, if_neg hc]
  | sign | string | var | path =>
      simp only [mayBegin, Bool.or_eq_true, decide_eq_true_eq, not_or] at hc
      simp_all [read, readSign, readString, readVar, readPath]

theorem readFirst_eq_nothing {fs : List Form} {t : Text} (h : ∀ f ∈ fs, f.read t = .nothing) :
    readFirst fs t = .nothing := by
  induction fs with
  | nil => rfl
  | cons f fs ih =>
      obtain ⟨hf, hfs⟩ := List.forall_mem_cons.mp h
      rw [readFirst, hf]
      exact ih hfs

theorem readFirst_append {fs gs : List Form} {f : Form} {t : Text}
    (hg : ∀ g ∈ gs, g.read t = .nothing) (hf : f.read t ≠ .nothing) :
    readFirst (gs ++ f :: fs) t = f.read t := by
  induction gs with
  | nil =>
      rw [List.nil_append, readFirst]
      split
      · exact absurd ‹_› hf
      · rfl
  | cons g gs ih =>
      rw [List.cons_append, readFirst, hg g (List.mem_cons_self ..)]
      exact ih fun g' h' => hg g' (List.mem_cons_of_mem _ h')

/-- Where two forms can begin with one character, the one tried first shadows the other. -/
theorem shadows_of_before {f g : Form} (h : g ∈ precedence.takeWhile (· ≠ f))
    (ho : g = f ∨ Shadows g f ∨ Shadows f g) : Shadows g f := by
  rcases ho with rfl | s | s
  · have hne := List.mem_takeWhile_imp h
    simp at hne
  · exact s
  · cases s <;> exact absurd h (by decide)

end Form

/-! ### What stands at the beginning -/

/-- With a character that no form can begin with, no lexeme begins. -/
theorem read_eq_nothing {c : Char} (h : ∀ f : Form, ¬ f.mayBegin c) (t : Text) :
    read (c :: t) = .nothing := by
  refine Form.readFirst_eq_nothing fun f _ => ?_
  by_contra hf
  exact h f (Form.mayBegin_of_read hf)

/-- **What a form finds is what stands there**, if no form that shadows it finds anything. -/
theorem read_eq_of_form {f : Form} {t : Text} (h : f.read t ≠ .nothing)
    (hs : ∀ g : Form, Form.Shadows g f → g.read t = .nothing) : read t = f.read t := by
  cases t with
  | nil => exact absurd f.read_nil h
  | cons c t =>
      have hf := Form.mayBegin_of_read h
      have hp : Form.precedence = Form.precedence.takeWhile (· ≠ f) ++
          f :: (Form.precedence.dropWhile (· ≠ f)).tail := by
        cases f <;> rfl
      rw [read, hp]
      refine Form.readFirst_append (fun g hg => ?_) h
      by_contra hn
      have ho := Form.eq_or_overlap (Form.mayBegin_of_read hn) hf
      exact hn (hs g (Form.shadows_of_before hg ho))

/-- A lexeme that stands at the beginning is found by some form, and no form that shadows it finds
anything. -/
theorem exists_form_of_read {t : Text} {l : Lexeme} (h : read t = .lexeme l) :
    ∃ f : Form, f.read t = .lexeme l ∧ ∀ g : Form, Form.Shadows g f → g.read t = .nothing := by
  obtain ⟨f, -, hf⟩ := Form.exists_of_readFirst h
  by_cases hn : ∃ g : Form, Form.Shadows g f ∧ g.read t ≠ .nothing
  · obtain ⟨g, hg, hn⟩ := hn
    -- nothing shadows a form that shadows another
    have no : ∀ o : Form, ¬ Form.Shadows o g := fun o ho => by cases hg <;> cases ho
    exact ⟨g, (read_eq_of_form hn fun o ho => absurd ho (no o)) ▸ h, fun o ho => absurd ho (no o)⟩
  · refine ⟨f, hf, fun g hg => ?_⟩
    by_contra hg'
    exact hn ⟨g, hg, hg'⟩

namespace Form

theorem exists_read_eq {fs : List Form} {t : Text} (h : readFirst fs t ≠ .nothing) :
    ∃ f ∈ fs, f.read t = readFirst fs t := by
  induction fs with
  | nil => exact absurd rfl h
  | cons f fs ih =>
      rw [readFirst] at h ⊢
      split
      · rename_i hf
        rw [hf] at h
        obtain ⟨g, hg, hr⟩ := ih h
        exact ⟨g, List.mem_cons_of_mem _ hg, hr⟩
      · exact ⟨f, List.mem_cons_self .., rfl⟩

/-- Only string literals have escapes. -/
theorem eq_string_of_read {f : Form} {t sequence : Text} {offset : Nat}
    (h : f.read t = .badEscape offset sequence) : f = string := by
  cases f with
  | string => rfl
  | operator | number | boolean =>
      simp only [read, readOperator, readNumber, readBoolean, Reading.spelled] at h
      split at h <;> cases h
  | sign =>
      rw [read, readSign.eq_def] at h
      split at h <;> cases h
  | leftParen | rightParen | comma | blank | function =>
      simp only [read, readBlank.eq_def, readChar.eq_def, readFunction, Reading.spelled] at h
      split at h
      · cases h
      · split at h <;> cases h
  | var | path =>
      simp only [read, readVar.eq_def, readPath.eq_def, Reading.spelled] at h
      split at h
      · split at h <;> cases h
      · cases h

end Form

/-- Only a literal has escapes. -/
theorem string_read_of_badEscape {t sequence : Text} {offset : Nat}
    (h : read t = .badEscape offset sequence) :
    Form.string.read t = .badEscape offset sequence := by
  have hn : Form.readFirst Form.precedence t ≠ .nothing := by
    intro hn
    rw [read, hn] at h
    cases h
  obtain ⟨f, -, hf⟩ := Form.exists_read_eq hn
  have hs := hf.trans h
  obtain rfl := Form.eq_string_of_read hs
  exact hs

/-- An escape that stands for nothing is in a literal, which begins with a quote. -/
theorem head?_of_badEscape {t sequence : Text} {offset : Nat}
    (h : read t = .badEscape offset sequence) : t.head? = some '\'' := by
  have hs := string_read_of_badEscape h
  cases t with
  | nil => cases h
  | cons c t =>
      have hc : Form.string.mayBegin c := Form.mayBegin_of_read (t := t) (by simp [hs])
      simp only [Form.mayBegin, decide_eq_true_eq] at hc
      rw [hc]
      rfl

end RuleCheck
