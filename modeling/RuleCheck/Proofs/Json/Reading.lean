import RuleCheck.Proofs.Json.Grammar

/-!
# Proofs — Json — reading

**Whoever writes a value, the reader reads it back** (`Writes.parse?_eq`), so that a text is the
text of one value only (`Writes.value_eq`).  The reader is given fuel for the length of the text,
and each rule of the grammar needs less of it than the characters that it adds (`Part.IsReadFrom`).

Only a number can be made longer by what stands behind it, so a digit may not.
-/

namespace RuleCheck.Json

/-! ### Strings and numbers -/

theorem readString_append {c : Char} {u : Text} (h : WritesChar c u) (t : Text) :
    readString (u ++ t) = (readString t).map fun (s, r) => (c :: s, r) := by
  cases h with
  | plain hc hq hb =>
      have hn : ¬ (c = '\\' ∨ c.toNat < 0x20) := not_or.mpr ⟨hb, Nat.not_lt.mpr hc⟩
      rw [List.singleton_append, readString, if_neg hn]
      · cases readString t <;> rfl
      · exact hq
      · exact fun _ _ _ _ _ h => absurd h hb
      · exact fun _ _ h => absurd h hb
  | @letter d h =>
      have hd : d ≠ 'u' := by
        rintro rfl
        cases h
      rw [List.cons_append, List.singleton_append, readString, h]
      · cases readString t <;> rfl
      · exact fun _ _ _ _ _ h => absurd h hd
  | point h =>
      simp only [List.cons_append, List.nil_append, readString, h]
      cases readString t <;> rfl

theorem Contents.readString_eq {s t : Text} (h : Contents s t) (r : Text) :
    readString (t ++ '"' :: r) = some (s, r) := by
  induction h with
  | nil => rfl
  | cons h hs ih => rw [List.append_assoc, readString_append h, ih, Option.map_some]

theorem IsNumeral.readNumber_eq {ds r : Text} (h : IsNumeral ds)
    (hr : ∀ c ∈ r.head?, ¬ c.isDigit) :
    readNumber (ds ++ r) = some (Nat.ofDigitChars 10 ds 0, r) := by
  rw [readNumber, takeWhile_append_of_stop h.digits hr, dropWhile_append_of_stop h.digits hr]
  split
  · exact absurd rfl h.ne
  · exact absurd (h.zero rfl) (by simp)
  · rfl

/-! ### White space in front -/

theorem readValue_congr {n : Nat} {t u : Text} (h : skipSpace t = skipSpace u) :
    readValue n t = readValue n u := by
  cases n with
  | zero => rfl
  | succ n => rw [readValue, h, readValue]

theorem readItems_congr {n : Nat} {t u : Text} (h : skipSpace t = skipSpace u) :
    readItems n t = readItems n u := by
  cases n with
  | zero => rfl
  | succ n => rw [readItems, readValue_congr h, readItems]

theorem readMembers_congr {n : Nat} {t u : Text} (h : skipSpace t = skipSpace u) :
    readMembers n t = readMembers n u := by
  cases n with
  | zero => rfl
  | succ n => rw [readMembers, h, readMembers]

/-! ### One rule at a time -/

theorem Quotes.readValue_eq {s q : Text} (h : Quotes s q) (n : Nat) (r : Text) :
    readValue (n + 1) (q ++ r) = some (string s, r) := by
  obtain ⟨h⟩ := h
  rw [List.cons_append, List.append_assoc, readValue, skipSpace_cons (by decide)]
  simp only [List.singleton_append, h.readString_eq, Option.map_some]

theorem IsNumeral.readValue_eq {ds r : Text} (h : IsNumeral ds) (n : Nat)
    (hr : ∀ c ∈ r.head?, ¬ c.isDigit) :
    readValue (n + 1) (ds ++ r) = some (number (Nat.ofDigitChars 10 ds 0), r) := by
  obtain ⟨c, u, rfl, hc⟩ := h.exists_eq_cons
  have hs : skipSpace (c :: u ++ r) = c :: u ++ r :=
    skipSpace_cons (not_isWhitespace_of_isDigit hc) _
  have hn : ∀ d : Char, d.isDigit = false → ∀ w, c :: u ++ r ≠ d :: w := by
    rintro d hd w h
    rw [(List.cons.inj h).1, hd] at hc
    cases hc
  rw [readValue, hs]
  split
  -- the reader looks first for beginnings that are no digits
  iterate 5 exact absurd ‹_› (hn _ (by decide) _)
  rw [h.readNumber_eq hr, Option.map_some]

theorem readValue_arrayNil (n : Nat) {b : Text} (hb : IsBlank b) (r : Text) :
    readValue (n + 1) ('[' :: (b ++ ']' :: r)) = some (array [], r) := by
  rw [readValue, skipSpace_cons (by decide)]
  simp [hb.skipSpace_append, skipSpace_cons]

theorem readValue_array {n : Nat} {l : List Json} {t r : Text}
    (hh : ∃ c u, skipSpace t = c :: u ∧ c ≠ ']') (h : readItems n t = some (l, r)) :
    readValue (n + 1) ('[' :: t) = some (array l, r) := by
  obtain ⟨c, u, hu, hc⟩ := hh
  rw [readItems_congr (skipSpace_skipSpace t).symm, hu] at h
  rw [readValue, skipSpace_cons (by decide)]
  simp only [hu]
  split
  · rename_i hr
    exact absurd (List.cons.inj hr).1 hc
  · rw [h, Option.map_some]

theorem readValue_objectNil (n : Nat) {b : Text} (hb : IsBlank b) (r : Text) :
    readValue (n + 1) ('\x7b' :: (b ++ '\x7d' :: r)) = some (object [], r) := by
  rw [readValue, skipSpace_cons (by decide)]
  simp [hb.skipSpace_append, skipSpace_cons]

theorem readValue_object {n : Nat} {l : List (Text × Json)} {t r : Text}
    (hh : ∃ u, skipSpace t = '"' :: u) (h : readMembers n t = some (l, r)) :
    readValue (n + 1) ('\x7b' :: t) = some (object l, r) := by
  obtain ⟨u, hu⟩ := hh
  rw [readMembers_congr (skipSpace_skipSpace t).symm, hu] at h
  rw [readValue, skipSpace_cons (by decide)]
  simp only [hu]
  split
  · rename_i hr
    exact absurd (List.cons.inj hr).1 (by decide)
  · rw [h, Option.map_some]

theorem readItems_one {n : Nat} {v : Json} {t b r : Text} (hb : IsBlank b)
    (h : readValue n t = some (v, b ++ ']' :: r)) : readItems (n + 1) t = some ([v], r) := by
  rw [readItems, h]
  simp [hb.skipSpace_append, skipSpace_cons]

theorem readItems_cons {n : Nat} {v : Json} {l : List Json} {t b u r : Text} (hb : IsBlank b)
    (h : readValue n t = some (v, b ++ ',' :: u)) (hl : readItems n u = some (l, r)) :
    readItems (n + 1) t = some (v :: l, r) := by
  rw [readItems, h]
  simp [hb.skipSpace_append, skipSpace_cons, hl]

theorem readMembers_one {k x t b r : Text} {n : Nat} {v : Json} (hk : Names k x) (hb : IsBlank b)
    (h : readValue n t = some (v, b ++ '\x7d' :: r)) :
    readMembers (n + 1) (x ++ t) = some ([(k, v)], r) := by
  obtain ⟨⟨hq⟩, ha, hc⟩ := hk
  rw [← readValue_congr (hc.skipSpace_append t)] at h
  simp [readMembers, skipSpace_cons, hq.readString_eq, ha.skipSpace_append, h, hb.skipSpace_append]

theorem readMembers_cons {k x t b u r : Text} {n : Nat} {v : Json} {l : List (Text × Json)}
    (hk : Names k x) (hb : IsBlank b) (h : readValue n t = some (v, b ++ ',' :: u))
    (hl : readMembers n u = some (l, r)) :
    readMembers (n + 1) (x ++ t) = some ((k, v) :: l, r) := by
  obtain ⟨⟨hq⟩, ha, hc⟩ := hk
  rw [← readValue_congr (hc.skipSpace_append t)] at h
  simp [readMembers, skipSpace_cons, hq.readString_eq, ha.skipSpace_append, h, hb.skipSpace_append,
    hl]

/-! ### Whole values -/

theorem head?_blank_append {b : Text} {d : Char} (hb : IsBlank b) (hd : d.isDigit = false)
    (r : Text) : ∀ c ∈ (b ++ d :: r).head?, ¬ c.isDigit := by
  intro c hc
  cases b with
  | nil =>
      obtain rfl : d = c := by simpa using hc
      simp [hd]
  | cons e b =>
      obtain rfl : e = c := by simpa using hc
      exact fun h => not_isWhitespace_of_isDigit h (hb _ (List.mem_cons_self ..))

/-- The reader finds the part in front of anything that can stand behind it, with fuel for no more
than the characters of the text. -/
def Part.IsReadFrom : Part → Text → Prop
  | value v, t =>
      ∀ n r, t.length ≤ n → (∀ c ∈ r.head?, ¬ c.isDigit) → readValue n (t ++ r) = some (v, r)
  | items l, t => ∀ n r, t.length < n → readItems n (t ++ ']' :: r) = some (l, r)
  | members l, t => ∀ n r, t.length < n → readMembers n (t ++ '\x7d' :: r) = some (l, r)

theorem Writes.length_pos {v : Json} {t : Text} (h : Writes (.value v) t) : 0 < t.length := by
  obtain ⟨c, u, rfl, -⟩ := h.head
  exact Nat.succ_pos _

/-- Brackets leave one unit of fuel for what is between them. -/
theorem exists_fuel {t : Text} {c d : Char} {n : Nat} (h : (c :: (t ++ [d])).length ≤ n) :
    ∃ m, n = m + 1 ∧ t.length < m := by
  rw [List.length_cons, List.length_append, List.length_singleton] at h
  exact ⟨n - 1, by omega, by omega⟩

/-- **Every part is read from its text.** -/
theorem Writes.isReadFrom {p : Part} {t : Text} (h : Writes p t) : p.IsReadFrom t := by
  induction h with
  | boolTrue | boolFalse =>
      intro n r hn hr
      obtain ⟨n, rfl⟩ := Nat.exists_eq_add_one.mpr (Nat.lt_of_lt_of_le (by decide) hn)
      rfl
  | number h =>
      intro n r hn hr
      have hpos : 0 < n := Nat.lt_of_lt_of_le (List.length_pos_iff.mpr h.ne) hn
      obtain ⟨n, rfl⟩ := Nat.exists_eq_add_one.mpr hpos
      exact h.readValue_eq n hr
  | string h =>
      intro n r hn hr
      have hpos : 0 < n := Nat.lt_of_lt_of_le (Writes.string h).length_pos hn
      obtain ⟨n, rfl⟩ := Nat.exists_eq_add_one.mpr hpos
      exact h.readValue_eq n r
  | @arrayNil b hb =>
      intro n r hn hr
      obtain ⟨n, rfl, -⟩ := exists_fuel hn
      rw [List.cons_append, List.append_assoc, List.singleton_append]
      exact readValue_arrayNil n hb r
  | array h ih =>
      intro n r hn hr
      obtain ⟨n, rfl, hm⟩ := exists_fuel hn
      rw [List.cons_append, List.append_assoc, List.singleton_append]
      exact readValue_array (h.items_head _) (ih n r hm)
  | objectNil hb =>
      intro n r hn hr
      obtain ⟨n, rfl, -⟩ := exists_fuel hn
      rw [List.cons_append, List.append_assoc, List.singleton_append]
      exact readValue_objectNil n hb r
  | object h ih =>
      intro n r hn hr
      obtain ⟨n, rfl, hm⟩ := exists_fuel hn
      rw [List.cons_append, List.append_assoc, List.singleton_append]
      exact readValue_object (h.members_head _) (ih n r hm)
  | @itemsOne v a t b ha hv hb ihv =>
      intro n r hn
      obtain ⟨n, rfl⟩ := Nat.exists_eq_add_one.mpr (Nat.zero_lt_of_lt hn)
      have hm : t.length ≤ n := by
        simp only [List.length_append] at hn
        omega
      rw [List.append_assoc, readItems_congr (ha.skipSpace_append _), List.append_assoc]
      exact readItems_one hb (ihv n _ hm (head?_blank_append hb (by decide) r))
  | @itemsCons v l a t b u ha hv hb hl ihv ihl =>
      intro n r hn
      obtain ⟨n, rfl⟩ := Nat.exists_eq_add_one.mpr (Nat.zero_lt_of_lt hn)
      -- the comma pays for the unit that is spent on the item
      have hm : t.length ≤ n ∧ u.length < n := by
        simp only [List.length_append, List.length_cons] at hn
        omega
      rw [List.append_assoc, readItems_congr (ha.skipSpace_append _), List.append_assoc,
        List.append_assoc]
      exact readItems_cons hb (ihv n _ hm.1 (head?_blank_append hb (by decide) _)) (ihl n r hm.2)
  | @membersOne k v a x t b ha hk hv hb ihv =>
      intro n r hn
      obtain ⟨n, rfl⟩ := Nat.exists_eq_add_one.mpr (Nat.zero_lt_of_lt hn)
      have hm : t.length ≤ n := by
        simp only [List.length_append] at hn
        omega
      rw [List.append_assoc, readMembers_congr (ha.skipSpace_append _), List.append_assoc,
        List.append_assoc]
      exact readMembers_one hk hb (ihv n _ hm (head?_blank_append hb (by decide) r))
  | @membersCons k v l a x t b u ha hk hv hb hl ihv ihl =>
      intro n r hn
      obtain ⟨n, rfl⟩ := Nat.exists_eq_add_one.mpr (Nat.zero_lt_of_lt hn)
      have hm : t.length ≤ n ∧ u.length < n := by
        simp only [List.length_append, List.length_cons] at hn
        omega
      rw [List.append_assoc, readMembers_congr (ha.skipSpace_append _), List.append_assoc,
        List.append_assoc, List.append_assoc]
      exact readMembers_cons hk hb (ihv n _ hm.1 (head?_blank_append hb (by decide) _))
        (ihl n r hm.2)

/-- **A text is read as the value that it writes**, with white space around it. -/
theorem Writes.parse?_eq {v : Json} {t a b : Text} (h : Writes (.value v) t) (ha : IsBlank a)
    (hb : IsBlank b) : parse? (a ++ (t ++ b)) = some v := by
  have hn : t.length ≤ (a ++ (t ++ b)).length + 1 := by
    simp only [List.length_append]
    omega
  have hd : ∀ c ∈ b.head?, ¬ c.isDigit := fun c hc hdig =>
    not_isWhitespace_of_isDigit hdig (hb c (List.mem_of_mem_head? hc))
  have hs : skipSpace b = [] := List.dropWhile_eq_nil_iff.mpr hb
  have hr : readValue ((a ++ (t ++ b)).length + 1) (a ++ (t ++ b)) = some (v, b) := by
    rw [readValue_congr (ha.skipSpace_append _)]
    exact h.isReadFrom _ b hn hd
  rw [parse?, hr]
  exact if_pos hs

theorem Writes.parse?_self {v : Json} {t : Text} (h : Writes (.value v) t) : parse? t = some v := by
  have hp := h.parse?_eq isBlank_nil isBlank_nil
  rwa [List.nil_append, List.append_nil] at hp

/-- **A text is the text of one value.** -/
theorem Writes.value_eq {v w : Json} {t : Text} (h : Writes (.value v) t)
    (h' : Writes (.value w) t) : v = w :=
  Option.some.inj (h.parse?_self.symm.trans h'.parse?_self)

theorem Writes.iff_eq {v : Json} {t : Text} (h : Writes (.value v) t) (w : Json) :
    Writes (.value w) t ↔ w = v :=
  ⟨fun hw => hw.value_eq h, fun he => he ▸ h⟩

end RuleCheck.Json
