import RuleCheck.Text.Line

/-!
# Proofs — Text — pieces and lines

The pieces between the marks of a text hold no mark (`notMem_of_mem_splitOn`), so no line holds a
line feed (`notMem_of_mem_lines`).  Texts that hold none and end in no carriage return are lines as
they are: **joined with line feeds they are the lines of what they make up** (`lines_intercalate`),
with a line feed behind the last or without.
-/

namespace RuleCheck.Text

/-! ### Pieces -/

theorem mem_splitOn_cons {c d : Char} {t p : Text} (h : p ∈ (d :: t).splitOn c) :
    p = [] ∨ p ∈ t.splitOn c ∨ d ≠ c ∧ ∃ q ∈ t.splitOn c, p = d :: q := by
  rw [List.splitOn_cons_eq_if_modifyHead] at h
  split at h
  · rcases List.mem_cons.mp h with h | h
    · exact .inl h
    · exact .inr (.inl h)
  · rename_i hd
    cases hs : t.splitOn c with
    | nil => exact absurd hs (List.splitOn_ne_nil c t)
    | cons q qs =>
        rw [hs, List.modifyHead_cons] at h
        rcases List.mem_cons.mp h with h | h
        · exact .inr (.inr ⟨by simpa using hd, q, List.mem_cons_self .., h⟩)
        · exact .inr (.inl (List.mem_cons_of_mem _ h))

theorem notMem_of_mem_splitOn {c : Char} {t p : Text} (h : p ∈ t.splitOn c) : c ∉ p := by
  induction t generalizing p with
  | nil =>
      obtain rfl : p = [] := by simpa using h
      exact List.not_mem_nil
  | cons d t ih =>
      rcases mem_splitOn_cons h with rfl | h | ⟨hd, q, hq, rfl⟩
      · exact List.not_mem_nil
      · exact ih h
      · simp [ih hq, Ne.symm hd]

theorem length_le_of_mem_splitOn {c : Char} {t p : Text} (h : p ∈ t.splitOn c) :
    p.length ≤ t.length := by
  induction t generalizing p with
  | nil =>
      obtain rfl : p = [] := by simpa using h
      exact Nat.le_refl 0
  | cons d t ih =>
      rcases mem_splitOn_cons h with rfl | h | ⟨-, q, hq, rfl⟩
      · exact Nat.zero_le _
      · exact Nat.le_succ_of_le (ih h)
      · exact Nat.succ_le_succ (ih hq)

/-- What holds no mark goes into the first piece. -/
theorem splitOn_append {c : Char} {x : Text} (hx : c ∉ x) (t : Text) :
    (x ++ t).splitOn c = (t.splitOn c).modifyHead (x ++ ·) := by
  induction x with
  | nil => exact (congrFun List.modifyHead_id (t.splitOn c)).symm
  | cons d x ih =>
      rw [List.mem_cons, not_or] at hx
      rw [List.cons_append, List.splitOn_cons_eq_if_modifyHead,
        if_neg (by simpa using Ne.symm hx.1), ih hx.2, List.modifyHead_modifyHead]
      rfl

/-- The pieces behind the first are shorter than the text. -/
theorem length_lt_of_mem_tail_splitOn {c : Char} {t p : Text} (h : p ∈ (t.splitOn c).tail) :
    p.length < t.length := by
  induction t with
  | nil => simp at h
  | cons d t ih =>
      rw [List.splitOn_cons_eq_if_modifyHead] at h
      split at h
      · exact Nat.lt_succ_of_le (length_le_of_mem_splitOn h)
      · rw [List.tail_modifyHead] at h
        exact Nat.lt_succ_of_lt (ih h)

/-- Texts with a mark behind each are cut into their own pieces, and nothing behind the last. -/
theorem splitOn_flatMap (c : Char) (ts : List Text) :
    (ts.flatMap (· ++ [c])).splitOn c = ts.flatMap (·.splitOn c) ++ [[]] := by
  induction ts with
  | nil => rfl
  | cons t ts ih =>
      rw [List.flatMap_cons, List.flatMap_cons, List.append_assoc, List.singleton_append,
        List.splitOn_append_cons_self, ih, List.append_assoc]

/-- Texts are their own pieces if no mark is in them. -/
theorem flatMap_splitOn_eq_self_iff {c : Char} {ts : List Text} :
    ts.flatMap (·.splitOn c) = ts ↔ ∀ t ∈ ts, c ∉ t := by
  constructor
  · intro h t ht
    rw [← h] at ht
    obtain ⟨u, -, hp⟩ := List.mem_flatMap.mp ht
    exact notMem_of_mem_splitOn hp
  · intro h
    induction ts with
    | nil => rfl
    | cons t ts ih =>
        obtain ⟨ht, hts⟩ := List.forall_mem_cons.mp h
        rw [List.flatMap_cons, List.splitOn_eq_singleton ht, ih hts, List.singleton_append]

/-! ### Lines -/

/-- A text that is a line as it stands. -/
structure IsLine (l : Text) : Prop where
  newline : '\n' ∉ l
  last : l.getLast? ≠ some '\r'

theorem withoutReturn_prefix (l : Text) : withoutReturn l <+: l := by
  rw [withoutReturn]
  split
  · exact List.dropLast_prefix l
  · exact List.prefix_rfl

theorem IsLine.withoutReturn_eq {l : Text} (h : IsLine l) : withoutReturn l = l := if_neg h.last

theorem exists_piece_of_mem_linesOfPieces {ps : List Text} {l : Text}
    (h : l ∈ linesOfPieces ps) : ∃ p ∈ ps, l <+: p := by
  fun_induction linesOfPieces ps with
  | case1 => cases h
  | case2 => cases h
  | case3 p => exact ⟨p, List.mem_cons_self .., List.mem_singleton.mp h ▸ List.prefix_rfl⟩
  | case4 p ps _ ih =>
      rcases List.mem_cons.mp h with rfl | h
      · exact ⟨p, List.mem_cons_self .., withoutReturn_prefix p⟩
      · obtain ⟨q, hq, hl⟩ := ih h
        exact ⟨q, List.mem_cons_of_mem _ hq, hl⟩

/-- No line holds a line feed. -/
theorem notMem_of_mem_lines {t l : Text} (h : l ∈ lines t) : '\n' ∉ l := by
  obtain ⟨p, hp, hl⟩ := exists_piece_of_mem_linesOfPieces h
  exact fun hm => notMem_of_mem_splitOn hp (hl.subset hm)

/-- **Lines joined with line feeds are cut into the same lines**, and a line feed behind the last
makes no further line. -/
theorem lines_intercalate {ls : List Text} {ending : Text} (ne : ls ≠ [])
    (h : ∀ l ∈ ls, IsLine l ∧ l ≠ []) (he : ending = [] ∨ ending = ['\n']) :
    lines (['\n'].intercalate ls ++ ending) = ls := by
  induction ls with
  | nil => exact absurd rfl ne
  | cons l ls ih =>
      obtain ⟨hl, hls⟩ := List.forall_mem_cons.mp h
      cases ls with
      | nil =>
          rw [List.intercalate_singleton]
          rcases he with rfl | rfl
          · rw [List.append_nil, lines_of_notMem hl.1.newline hl.2]
          · rw [lines_append_cons hl.1.newline, hl.1.withoutReturn_eq]
            rfl
      | cons l' ls =>
          rw [List.intercalate_cons_cons, List.append_assoc, List.append_assoc,
            List.singleton_append, lines_append_cons hl.1.newline, hl.1.withoutReturn_eq,
            ih (List.cons_ne_nil _ _) hls]

end RuleCheck.Text
