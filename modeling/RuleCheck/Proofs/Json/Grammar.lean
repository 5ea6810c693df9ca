import Mathlib.Data.List.DropRight
import RuleCheck.Json.Reader
import RuleCheck.Proofs.Text.Span

/-!
# Proofs — Json — texts of values

A value has many texts: there may be white space between tokens, and a string may spell a character
as it is, by the letter that means it or by its code point.  `Writes` has a rule for each kind of
value, and for the rows between the brackets of an array and of an object.  It is the grammar of
JSON for the values that there are here; pairs of surrogates in a string are left out.

Every value begins with a character that is neither white space nor a bracket that closes
(`Writes.head`), so what follows an opening bracket tells at once whether something is inside.
-/

namespace RuleCheck.Json

/-- White space between tokens. -/
def IsBlank (b : Text) : Prop := ∀ c ∈ b, c.isWhitespace

/-- What stands for a character in a string. -/
inductive WritesChar : Char → Text → Prop where
  | plain {c : Char} (hc : 0x20 ≤ c.toNat) (hq : c ≠ '"') (hb : c ≠ '\\') : WritesChar c [c]
  | letter {c d : Char} (h : meaning? d = some c) : WritesChar c ['\\', d]
  | point {x a b c d : Char} (h : Text.codePoint? a b c d = some x) :
      WritesChar x ['\\', 'u', a, b, c, d]

/-- What stands for the characters of a string, one behind the other. -/
inductive Contents : Text → Text → Prop where
  | nil : Contents [] []
  | cons {c : Char} {s u t : Text} (h : WritesChar c u) (hs : Contents s t) :
      Contents (c :: s) (u ++ t)

/-- A string in its quotes. -/
inductive Quotes : Text → Text → Prop where
  | intro {s t : Text} (h : Contents s t) : Quotes s ('"' :: (t ++ ['"']))

/-- The name of a member and the colon behind it. -/
inductive Names : Text → Text → Prop where
  | intro {k q b c : Text} (hq : Quotes k q) (hb : IsBlank b) (hc : IsBlank c) :
      Names k (q ++ (b ++ ':' :: c))

/-- A number in decimal digits, without leading zeros. -/
structure IsNumeral (ds : Text) : Prop where
  ne : ds ≠ []
  digits : ∀ c ∈ ds, c.isDigit
  zero : ds.head? = some '0' → ds = ['0']

/-- What has a text of its own. -/
inductive Part where
  | value (v : Json)
  /-- What stands between the brackets of an array that is not empty. -/
  | items (l : List Json)
  /-- What stands between the brackets of an object that is not empty. -/
  | members (l : List (Text × Json))

inductive Writes : Part → Text → Prop where
  | boolTrue : Writes (.value (.bool true)) ['t', 'r', 'u', 'e']
  | boolFalse : Writes (.value (.bool false)) ['f', 'a', 'l', 's', 'e']
  | number {ds : Text} (h : IsNumeral ds) : Writes (.value (.number (Nat.ofDigitChars 10 ds 0))) ds
  | string {s q : Text} (h : Quotes s q) : Writes (.value (.string s)) q
  | arrayNil {b : Text} (hb : IsBlank b) : Writes (.value (.array [])) ('[' :: (b ++ [']']))
  | array {l : List Json} {t : Text} (h : Writes (.items l) t) :
      Writes (.value (.array l)) ('[' :: (t ++ [']']))
  | objectNil {b : Text} (hb : IsBlank b) :
      Writes (.value (.object [])) ('\x7b' :: (b ++ ['\x7d']))
  | object {l : List (Text × Json)} {t : Text} (h : Writes (.members l) t) :
      Writes (.value (.object l)) ('\x7b' :: (t ++ ['\x7d']))
  | itemsOne {v : Json} {a t b : Text} (ha : IsBlank a) (hv : Writes (.value v) t)
      (hb : IsBlank b) : Writes (.items [v]) (a ++ (t ++ b))
  | itemsCons {v : Json} {l : List Json} {a t b u : Text} (ha : IsBlank a)
      (hv : Writes (.value v) t) (hb : IsBlank b) (hl : Writes (.items l) u) :
      Writes (.items (v :: l)) (a ++ (t ++ (b ++ ',' :: u)))
  | membersOne {k : Text} {v : Json} {a x t b : Text} (ha : IsBlank a) (hk : Names k x)
      (hv : Writes (.value v) t) (hb : IsBlank b) :
      Writes (.members [(k, v)]) (a ++ (x ++ (t ++ b)))
  | membersCons {k : Text} {v : Json} {l : List (Text × Json)} {a x t b u : Text}
      (ha : IsBlank a) (hk : Names k x) (hv : Writes (.value v) t) (hb : IsBlank b)
      (hl : Writes (.members l) u) :
      Writes (.members ((k, v) :: l)) (a ++ (x ++ (t ++ (b ++ ',' :: u))))

/-! ### White space -/

theorem isBlank_nil : IsBlank [] := fun _ h => nomatch h

theorem IsBlank.skipSpace_append {b : Text} (hb : IsBlank b) (t : Text) :
    skipSpace (b ++ t) = skipSpace t :=
  List.dropWhile_append_of_pos hb

theorem skipSpace_cons {c : Char} (hc : ¬ c.isWhitespace) (t : Text) :
    skipSpace (c :: t) = c :: t :=
  List.dropWhile_cons_of_neg hc

theorem skipSpace_skipSpace (t : Text) : skipSpace (skipSpace t) = skipSpace t :=
  List.dropWhile_idempotent _ _

/-! ### First characters -/

theorem not_isWhitespace_of_isDigit {c : Char} (h : c.isDigit) : ¬ c.isWhitespace := by
  intro hw
  simp only [Char.isWhitespace, Bool.or_eq_true, decide_eq_true_eq, or_assoc] at hw
  rcases hw with rfl | rfl | rfl | rfl <;> exact absurd h (by decide)

theorem IsNumeral.exists_eq_cons {ds : Text} (h : IsNumeral ds) :
    ∃ c u, ds = c :: u ∧ c.isDigit := by
  obtain ⟨c, u, rfl⟩ := List.exists_cons_of_ne_nil h.ne
  exact ⟨c, u, rfl, h.digits c (List.mem_cons_self ..)⟩

/-- **What a value begins with** is no white space, and closes no array. -/
theorem Writes.head {v : Json} {t : Text} (h : Writes (.value v) t) :
    ∃ c u, t = c :: u ∧ ¬ c.isWhitespace ∧ c ≠ ']' := by
  cases h with
  | number h =>
      obtain ⟨c, u, hu, hc⟩ := h.exists_eq_cons
      refine ⟨c, u, hu, not_isWhitespace_of_isDigit hc, ?_⟩
      rintro rfl
      cases hc
  | string h =>
      cases h
      exact ⟨_, _, rfl, by decide, by decide⟩
  | boolTrue | boolFalse | arrayNil | array | objectNil | object =>
      exact ⟨_, _, rfl, by decide, by decide⟩

theorem Writes.skipSpace_eq {v : Json} {t : Text} (h : Writes (.value v) t) (r : Text) :
    skipSpace (t ++ r) = t ++ r := by
  obtain ⟨c, u, rfl, hc, -⟩ := h.head
  exact skipSpace_cons hc (u ++ r)

/-- Items begin with no bracket that closes an array. -/
theorem Writes.items_head {l : List Json} {t : Text} (h : Writes (.items l) t) (r : Text) :
    ∃ c u, skipSpace (t ++ r) = c :: u ∧ c ≠ ']' := by
  cases h with
  | itemsOne ha hv hb | itemsCons ha hv hb =>
      rw [List.append_assoc, ha.skipSpace_append, List.append_assoc, hv.skipSpace_eq]
      obtain ⟨c, u, rfl, -, hc⟩ := hv.head
      exact ⟨c, _, rfl, hc⟩

theorem Names.head {k x : Text} (h : Names k x) : ∃ u, x = '"' :: u := by
  obtain ⟨⟨-⟩, -, -⟩ := h
  exact ⟨_, rfl⟩

/-- Members begin with the name of the first. -/
theorem Writes.members_head {l : List (Text × Json)} {t : Text} (h : Writes (.members l) t)
    (r : Text) : ∃ u, skipSpace (t ++ r) = '"' :: u := by
  cases h with
  | membersOne ha hk hv hb | membersCons ha hk hv hb =>
      obtain ⟨u, rfl⟩ := hk.head
      rw [List.append_assoc, ha.skipSpace_append]
      exact ⟨_, skipSpace_cons (by decide) _⟩

end RuleCheck.Json
