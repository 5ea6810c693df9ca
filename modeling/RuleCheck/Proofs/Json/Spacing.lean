import RuleCheck.Proofs.Json.Printing

/-!
# Proofs — Json — white space between tokens

White space counts only inside the quotes of a string.  What a text is without the rest (`unspaced`)
is found in one pass that knows whether it is in a string, and whether right behind a backslash
there.  **Every layout is the compact one but for white space** (`unspaced_print`).
-/

namespace RuleCheck.Json

/-- Where a character of a text stands. -/
inductive Site where
  | between
  /-- In a string. -/
  | quoted
  /-- In a string, right behind a backslash. -/
  | escaped
deriving DecidableEq, Repr

/-- Where the character behind the character stands. -/
def Site.after : Site → Char → Site
  | between, c => if c = '"' then quoted else between
  | quoted, c  => if c = '"' then between else if c = '\\' then escaped else quoted
  | escaped, _ => quoted

/-- A text that begins at the site, without the white space that is in no string. -/
def unspacedFrom : Site → Text → Text
  | _, []     => []
  | s, c :: t =>
      (if s = .between ∧ c.isWhitespace then [] else [c]) ++ unspacedFrom (s.after c) t

def unspaced (t : Text) : Text := unspacedFrom .between t

/-! ### In a string -/

theorem unspacedFrom_quoted (c : Char) (t : Text) :
    unspacedFrom .quoted (c :: t) = c :: unspacedFrom (Site.quoted.after c) t := rfl

theorem after_quoted {c : Char} (hq : c ≠ '"') (hb : c ≠ '\\') : Site.quoted.after c = .quoted := by
  rw [Site.after, if_neg hq, if_neg hb]

theorem after_quoted_of_hexValue? {c : Char} {n : Nat} (h : Text.hexValue? c = some n) :
    Site.quoted.after c = .quoted := by
  refine after_quoted ?_ ?_ <;> rintro rfl <;> cases h

/-- What stands for a character stays as it is, and ends in the string. -/
theorem WritesChar.unspacedFrom_append {c : Char} {u : Text} (h : WritesChar c u) (r : Text) :
    unspacedFrom .quoted (u ++ r) = u ++ unspacedFrom .quoted r := by
  cases h with
  | plain hc hq hb => rw [List.singleton_append, unspacedFrom_quoted, after_quoted hq hb]; rfl
  | letter h => rfl
  | @point a b c d h =>
      simp only [Text.codePoint?, Option.bind_eq_bind, Option.bind_eq_some_iff] at h
      obtain ⟨_, ha, _, hb, _, hc, _, hd, -⟩ := h
      have hu : unspacedFrom .quoted (['\\', 'u', a, b, c, d] ++ r) =
          '\\' :: 'u' :: unspacedFrom .quoted (a :: b :: c :: d :: r) := rfl
      rw [hu, unspacedFrom_quoted, after_quoted_of_hexValue? ha, unspacedFrom_quoted,
        after_quoted_of_hexValue? hb, unspacedFrom_quoted, after_quoted_of_hexValue? hc,
        unspacedFrom_quoted, after_quoted_of_hexValue? hd]
      rfl

theorem Contents.unspacedFrom_append {s t : Text} (h : Contents s t) (r : Text) :
    unspacedFrom .quoted (t ++ '"' :: r) = t ++ '"' :: unspaced r := by
  induction h with
  | nil => rfl
  | cons h hs ih => rw [List.append_assoc, h.unspacedFrom_append, ih, List.append_assoc]

/-! ### Texts that differ in white space -/

/-- A text is another but for white space, whatever stands behind it. -/
def Shrinks (t u : Text) : Prop := ∀ r, unspaced (t ++ r) = u ++ unspaced r

namespace Shrinks

theorem nil : Shrinks [] [] := fun _ => rfl

theorem append {t u t' u' : Text} (h : Shrinks t u) (h' : Shrinks t' u') :
    Shrinks (t ++ t') (u ++ u') := by
  intro r
  rw [List.append_assoc, h, h', List.append_assoc]

theorem single {c : Char} (hq : c ≠ '"') (hw : ¬ c.isWhitespace) : Shrinks [c] [c] := by
  intro r
  have ha : Site.between.after c = .between := if_neg hq
  rw [unspaced, List.singleton_append, unspacedFrom, if_neg (fun h => hw h.2), ha]
  rfl

theorem blank {b : Text} (hb : IsBlank b) : Shrinks b [] := by
  intro r
  induction b with
  | nil => rfl
  | cons c b ih =>
      obtain ⟨hc, hb⟩ := List.forall_mem_cons.mp hb
      have ha : Site.between.after c = .between := if_neg (by rintro rfl; cases hc)
      rw [unspaced, List.cons_append, unspacedFrom, if_pos ⟨rfl, hc⟩, ha]
      exact ih hb

theorem quotes {s q : Text} (h : Quotes s q) : Shrinks q q := by
  intro r
  obtain ⟨h⟩ := h
  have hq := h.unspacedFrom_append r
  rw [List.cons_append, List.append_assoc, List.singleton_append, List.cons_append,
    List.append_assoc, List.singleton_append]
  exact congrArg ('"' :: ·) hq

theorem digits {ds : Text} (h : ∀ c ∈ ds, c.isDigit) : Shrinks ds ds := by
  induction ds with
  | nil => exact nil
  | cons c ds ih =>
      obtain ⟨hc, hds⟩ := List.forall_mem_cons.mp h
      have hq : c ≠ '"' := by rintro rfl; cases hc
      exact (single hq (not_isWhitespace_of_isDigit hc)).append (ih hds)

theorem intercalate {α : Type} {a b : Text} {f g : α → Text} {l : List α} (hs : Shrinks a b)
    (h : ∀ i ∈ l, Shrinks (f i) (g i)) :
    Shrinks (a.intercalate (l.map f)) (b.intercalate (l.map g)) := by
  induction l with
  | nil => exact nil
  | cons i l ih =>
      obtain ⟨hi, hl⟩ := List.forall_mem_cons.mp h
      cases l with
      | nil => simpa using hi
      | cons j l =>
          simp only [List.map_cons, List.intercalate_cons_cons]
          exact (hi.append hs).append (ih hl)

variable {y : Layout}

theorem enclose (h : y.IsSpaced) (depth : Nat) {left right : Char} (hl : Shrinks [left] [left])
    (hr : Shrinks [right] [right]) {α : Type} {f g : α → Text} {l : List α}
    (hp : ∀ i ∈ l, Shrinks (f i) (g i)) :
    Shrinks (y.enclose depth left right (l.map f))
      (Layout.compact.enclose depth left right (l.map g)) := by
  by_cases ne : l = []
  · rw [ne]
    exact hl.append hr
  · have hsep : Shrinks (',' :: y.newline (depth + 1)) [','] :=
      (single (by decide) (by decide)).append (blank (h.newline _))
    have hrow : Shrinks (y.newline (depth + 1) ++
        ((',' :: y.newline (depth + 1)).intercalate (l.map f) ++ y.newline depth))
        ([] ++ ([','].intercalate (l.map g) ++ [])) :=
      (blank (h.newline _)).append ((hsep.intercalate hp).append (blank (h.newline _)))
    rw [enclose_eq depth _ _ (mt List.map_eq_nil_iff.mp ne),
      enclose_eq depth _ _ (mt List.map_eq_nil_iff.mp ne)]
    exact hl.append (hrow.append hr)

theorem colon (h : y.IsSpaced) : Shrinks y.colon [':'] := by
  obtain ⟨b, hb, hy⟩ := h.colon
  rw [hy]
  exact (single (by decide) (by decide)).append (blank hb)

theorem print (h : y.IsSpaced) (depth : Nat) (v : Json) :
    Shrinks (v.print y depth) (v.print .compact depth) := by
  induction v generalizing depth with
  | bool b => cases b <;> exact fun r => rfl
  | number n => exact digits fun _ => Text.isDigit_of_mem_decimal
  | string s => exact quotes (quotes_printString s)
  | array l ih =>
      rw [Json.print, Json.print, printItems_eq_map, printItems_eq_map]
      exact enclose h depth (single (by decide) (by decide)) (single (by decide) (by decide))
        fun v hv => ih v hv _
  | object l ih =>
      rw [Json.print, Json.print, printMembers_eq_map, printMembers_eq_map]
      refine enclose h depth (single (by decide) (by decide)) (single (by decide) (by decide))
        fun m hm => ?_
      exact ((quotes (quotes_printString m.1)).append (colon h)).append (ih m hm _)

end Shrinks

/-- **Without white space between its tokens**, a text in any layout is the compact one. -/
theorem unspaced_print {y : Layout} (h : y.IsSpaced) (v : Json) :
    unspaced (v.print y 0) = v.compact := by
  have hs := Shrinks.print h 0 v []
  rwa [List.append_nil, show unspaced [] = [] from rfl, List.append_nil] at hs

end RuleCheck.Json
