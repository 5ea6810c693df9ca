import RuleCheck.Json.Printer
import RuleCheck.Proofs.Json.Grammar
import RuleCheck.Proofs.Text.Escape

/-!
# Proofs — Json — printing

**The printer writes a text of the value** in every layout that puts nothing but white space between
tokens (`writes_print`), so in the compact one and in the pretty one.  A character that may not
stand in a string as it is has a letter that means it, or else it has the two digits of its code
point (`writesChar_escaped`).
-/

namespace RuleCheck.Json

/-- What holds of a value if it holds of all that is in it, holds of every value. -/
@[elab_as_elim, induction_eliminator]
theorem induct {P : Json → Prop} (bool : ∀ b, P (bool b)) (number : ∀ n, P (number n))
    (string : ∀ s, P (string s)) (array : ∀ l, (∀ v ∈ l, P v) → P (array l))
    (object : ∀ l, (∀ m ∈ l, P m.2) → P (object l)) : ∀ v, P v
  | .bool b   => bool b
  | .number n => number n
  | .string s => string s
  | .array l  => array l fun v _ => induct bool number string array object v
  | .object l => object l fun m hm =>
      have : sizeOf m.2 < sizeOf l :=
        Nat.lt_trans (by cases m; simp +arith) (List.sizeOf_lt_of_mem hm)
      induct bool number string array object m.2

theorem printItems_eq_map (y : Layout) (depth : Nat) (l : List Json) :
    printItems y depth l = l.map (print y depth) := by
  induction l with
  | nil => rfl
  | cons v l ih => rw [printItems, ih, List.map_cons]

theorem printMembers_eq_map (y : Layout) (depth : Nat) (l : List (Text × Json)) :
    printMembers y depth l = l.map fun (k, v) => printString k ++ y.colon ++ print y depth v := by
  induction l with
  | nil => rfl
  | cons m l ih => rw [printMembers, ih, List.map_cons]

/-! ### Strings and numbers -/

theorem codePoint?_digits {c : Char} (h : c.toNat < 0x20) :
    Text.codePoint? '0' '0' (c.toNat / 16).digitChar (c.toNat % 16).digitChar = some c := by
  have hz : Text.IsHexDigit '0' 0 := Text.isHexDigit_digitChar (by decide)
  have hi : Text.IsHexDigit (c.toNat / 16).digitChar (c.toNat / 16) :=
    Text.isHexDigit_digitChar (by omega)
  have hj : Text.IsHexDigit (c.toNat % 16).digitChar (c.toNat % 16) :=
    Text.isHexDigit_digitChar (by omega)
  have hn : c.toNat = ((0 * 16 + 0) * 16 + c.toNat / 16) * 16 + c.toNat % 16 := by omega
  exact Text.codePoint?_eq_some_iff.mpr
    ⟨rfl, _, .cons hz (.cons hz (.cons hi (.cons hj .nil))), hn⟩

/-- **A character is escaped by something that stands for it.** -/
theorem writesChar_escaped (c : Char) : WritesChar c (escaped c) := by
  unfold escaped
  split
  -- the characters that have a letter or sign of their own
  iterate 7 exact .letter rfl
  rename_i hq hb _ _ _ _ _
  split
  · rename_i hc
    exact .point (codePoint?_digits hc)
  · rename_i hc
    exact .plain (Nat.not_lt.mp hc) hq hb

theorem contents_escaped (s : Text) : Contents s (s.flatMap escaped) := by
  induction s with
  | nil => exact .nil
  | cons c s ih => exact .cons (writesChar_escaped c) ih

theorem quotes_printString (s : Text) : Quotes s (printString s) := .intro (contents_escaped s)

theorem head?_decimal {n : Nat} (h : n ≠ 0) : (Text.decimal n).head? ≠ some '0' := by
  induction n using Nat.strongRecOn with
  | _ n ih =>
    by_cases hn : n < 10
    · have hd : ∀ d < 10, d ≠ 0 → [Nat.digitChar d].head? ≠ some '0' := by decide
      rw [Text.decimal, Nat.toDigits_of_lt_base hn]
      exact hd n hn h
    · have hd : n / 10 ≠ 0 := by omega
      have hne : Nat.toDigits 10 (n / 10) ≠ [] := Nat.toDigits_ne_nil
      rw [Text.decimal, Nat.toDigits_of_base_le (by decide) (Nat.not_lt.mp hn),
        List.head?_append_of_ne_nil _ hne]
      exact ih _ (by omega) hd

theorem isNumeral_decimal (n : Nat) : IsNumeral (Text.decimal n) where
  ne := Nat.toDigits_ne_nil
  digits := fun _ => Text.isDigit_of_mem_decimal
  zero := fun h => by
    by_cases hn : n = 0
    · rw [hn]
      rfl
    · exact absurd h (head?_decimal hn)

/-! ### Layouts -/

/-- A layout that puts nothing but white space between tokens. -/
structure Layout.IsSpaced (y : Layout) : Prop where
  newline : ∀ depth, IsBlank (y.newline depth)
  colon : ∃ b, IsBlank b ∧ y.colon = ':' :: b

theorem Layout.isSpaced_compact : Layout.compact.IsSpaced where
  newline := fun _ => isBlank_nil
  colon := ⟨[], isBlank_nil, rfl⟩

theorem Layout.isSpaced_pretty : Layout.pretty.IsSpaced where
  newline := fun depth => List.forall_mem_cons.mpr ⟨by decide, fun c hc => by
    rw [List.eq_of_mem_replicate hc]
    decide⟩
  colon := ⟨[' '], by simp [IsBlank], rfl⟩

variable {y : Layout}

/-- Brackets around a row of pieces, with what begins a line before each and behind the last. -/
theorem enclose_eq (depth : Nat) (left right : Char) {pieces : List Text} (ne : pieces ≠ []) :
    y.enclose depth left right pieces =
      left :: ((y.newline (depth + 1) ++
        ((',' :: y.newline (depth + 1)).intercalate pieces ++ y.newline depth)) ++ [right]) := by
  rw [Layout.enclose, if_neg ne]
  simp only [List.cons_append, List.nil_append, List.append_assoc]

/-- A row of pieces is made from behind: the last piece, then each with a comma in front of what is
there already. -/
theorem row_intercalate {α : Type} {P : List α → Text → Prop} {Q : α → Prop} {f : α → Text}
    {a b : Text} (one : ∀ i, Q i → P [i] (a ++ (f i ++ b)))
    (cons : ∀ i l u, Q i → P l u → P (i :: l) (a ++ (f i ++ ',' :: u))) {l : List α}
    (ne : l ≠ []) (h : ∀ i ∈ l, Q i) : P l (a ++ ((',' :: a).intercalate (l.map f) ++ b)) := by
  induction l with
  | nil => exact absurd rfl ne
  | cons i l ih =>
      obtain ⟨hi, hl⟩ := List.forall_mem_cons.mp h
      cases l with
      | nil =>
          rw [List.map_singleton, List.intercalate_singleton]
          exact one i hi
      | cons j l =>
          have hr := cons i _ _ hi (ih (List.cons_ne_nil j l) hl)
          rw [List.map_cons, List.map_cons, List.intercalate_cons_cons, List.append_assoc,
            List.append_assoc]
          exact hr

theorem writes_array (h : y.IsSpaced) (depth : Nat) {l : List Json} {f : Json → Text}
    (hl : ∀ v ∈ l, Writes (.value v) (f v)) :
    Writes (.value (array l)) (y.enclose depth '[' ']' (l.map f)) := by
  by_cases ne : l = []
  · rw [ne]
    exact .arrayNil isBlank_nil
  · rw [enclose_eq depth _ _ (mt List.map_eq_nil_iff.mp ne)]
    refine .array (row_intercalate (P := fun l => Writes (.items l)) ?_ ?_ ne hl)
    · exact fun v hv => .itemsOne (h.newline _) hv (h.newline _)
    · exact fun v l u hv hu => .itemsCons (h.newline _) hv isBlank_nil hu

theorem names_printString (h : y.IsSpaced) (k : Text) : Names k (printString k ++ y.colon) := by
  obtain ⟨b, hb, hy⟩ := h.colon
  rw [hy]
  exact .intro (quotes_printString k) isBlank_nil hb

theorem writes_object (h : y.IsSpaced) (depth : Nat) {l : List (Text × Json)} {f : Json → Text}
    (hl : ∀ m ∈ l, Writes (.value m.2) (f m.2)) :
    Writes (.value (object l))
      (y.enclose depth '\x7b' '\x7d' (l.map fun (k, v) => printString k ++ y.colon ++ f v)) := by
  by_cases ne : l = []
  · rw [ne]
    exact .objectNil isBlank_nil
  · rw [enclose_eq depth _ _ (mt List.map_eq_nil_iff.mp ne)]
    refine .object (row_intercalate (P := fun l => Writes (.members l)) ?_ ?_ ne hl)
    · intro m hm
      rw [List.append_assoc]
      exact .membersOne (h.newline _) (names_printString h m.1) hm (h.newline _)
    · intro m l u hm hu
      rw [List.append_assoc]
      exact .membersCons (h.newline _) (names_printString h m.1) hm isBlank_nil hu

/-- **The printer writes the value**, with white space where the layout puts it. -/
theorem writes_print (h : y.IsSpaced) (depth : Nat) (v : Json) :
    Writes (.value v) (print y depth v) := by
  induction v generalizing depth with
  | bool b => cases b <;> constructor
  | number n =>
      have hn := Writes.number (isNumeral_decimal n)
      rwa [Text.decimal, Nat.ofDigitChars_ten_toDigits] at hn
  | string s => exact .string (quotes_printString s)
  | array l ih =>
      rw [print, printItems_eq_map]
      exact writes_array h depth fun v hv => ih v hv _
  | object l ih =>
      rw [print, printMembers_eq_map]
      exact writes_object h depth fun m hm => ih m hm _

theorem writes_compact (v : Json) : Writes (.value v) v.compact :=
  writes_print Layout.isSpaced_compact 0 v

theorem writes_pretty (v : Json) : Writes (.value v) v.pretty :=
  writes_print Layout.isSpaced_pretty 0 v

end RuleCheck.Json
