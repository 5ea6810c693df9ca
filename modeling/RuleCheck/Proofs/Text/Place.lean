import Mathlib.Algebra.GroupWithZero.Nat
import RuleCheck.Proofs.Text.Span
import RuleCheck.Text.Place

/-!
# Proofs — Text — places in the whole text

What is seen at a place is told by the whole text and the column alone: one character by its index
(`Place.peek?_eq`), several by what is dropped and taken (`Place.slice_eq`), and a row of characters
of a kind by where it stops.  No bound is checked, as dropping too much leaves nothing.

Any number of advances come to one (`Place.foldl_advance`).  So **a place is a view of the text from
the sum of its advances**, or from the end if the sum is beyond it (`Place.view_of_advances`).
-/

namespace RuleCheck.Place

/-! ### Looking ahead -/

variable (p : Place) (offset n : Nat) (q : Char → Bool)

theorem drop_ahead : p.ahead.drop offset = p.text.drop (p.column + offset) := by
  rw [ahead_eq_drop, List.drop_drop]

theorem peek?_eq : p.peek? offset = p.text[p.column + offset]? := by
  rw [peek?, ahead_eq_drop, List.getElem?_drop]

theorem slice_eq : p.slice offset n = (p.text.drop (p.column + offset)).take n := by
  rw [slice, drop_ahead]

theorem runLength_eq :
    p.runLength offset q = ((p.text.drop (p.column + offset)).takeWhile q).length := by
  rw [runLength, drop_ahead]

/-- A column beyond the end of the text is its end. -/
theorem textFrom_eq : p.textFrom n = p.text.drop (min n p.size) := by
  rw [textFrom, size]
  exact List.drop_eq_drop_iff.mpr (by omega)

theorem startsWith_eq {p : Place} {t : Text} (h : t ≠ []) :
    p.startsWith t = t.isPrefixOf p.ahead := by
  cases t with
  | nil => contradiction
  | cons => rfl

theorem startsWith_iff {p : Place} {t : Text} :
    p.startsWith t ↔ t ≠ [] ∧ p.slice 0 t.length = t := by
  rw [startsWith, Bool.and_eq_true, List.isPrefixOf_iff_prefix, List.prefix_iff_eq_take, slice,
    List.drop_zero, eq_comm (a := t)]
  simp

/-! ### Rows of characters of a kind -/

theorem slice_runLength :
    p.slice offset (p.runLength offset q) = (p.ahead.drop offset).takeWhile q :=
  (List.prefix_iff_eq_take.mp (List.takeWhile_prefix q)).symm

theorem slice_runLength_add :
    p.slice 0 (p.runLength offset q + offset) =
      p.ahead.take offset ++ (p.ahead.drop offset).takeWhile q := by
  rw [← p.slice_runLength offset q, Nat.add_comm, slice, List.drop_zero, List.take_add, slice]

theorem of_mem_slice_runLength {c : Char} (h : c ∈ p.slice offset (p.runLength offset q)) :
    q c := by
  rw [slice_runLength] at h
  exact List.mem_takeWhile_imp h

/-- What stops a row is no character of its kind. -/
theorem not_of_mem_peek?_runLength {c : Char}
    (h : c ∈ p.peek? (offset + p.runLength offset q)) : ¬ q c := by
  rw [peek?, ← List.getElem?_drop, runLength, getElem?_length_takeWhile] at h
  exact not_of_mem_head?_dropWhile h

/-! ### Advancing -/

theorem foldl_advance (ns : List Nat) : ns.foldl advance p = p.advance ns.sum := by
  induction ns generalizing p with
  | nil => simp [advance]
  | cons n ns ih => rw [List.foldl_cons, ih, advance_advance, List.sum_cons]

theorem column_le_advance : p.column ≤ (p.advance n).column := by
  rw [column_advance]
  exact Nat.le_min.mpr ⟨Nat.le_add_right .., p.column_le_size⟩

/-- **A place is a view of the text.**  Behind any advances the column is their sum, up to the
length of the text, and it never comes back.  From there the text is indexed, dropped and taken,
whether or not there is so much of it.  A row of characters of a kind is all of that kind, and what
stops it, if anything does, is not. -/
theorem view_of_advances (t : Text) (ns : List Nat) :
    let p := ns.foldl advance (start t)
    p.size = t.length ∧ p.column = min ns.sum t.length ∧
      (∀ n, p.column ≤ (p.advance n).column) ∧
      (∀ offset, p.peek? offset = t[p.column + offset]?) ∧
      (∀ offset n, p.slice offset n = (t.drop (p.column + offset)).take n) ∧
      (∀ column, p.textFrom column = t.drop (min column t.length)) ∧
      (∀ offset q, p.runLength offset q = ((t.drop (p.column + offset)).takeWhile q).length) ∧
      (∀ w, p.startsWith w ↔ w ≠ [] ∧ p.slice 0 w.length = w) ∧
      (∀ offset q, ∀ c ∈ p.slice offset (p.runLength offset q), q c) ∧
      ∀ offset q, ∀ c ∈ p.peek? (offset + p.runLength offset q), ¬ q c := by
  intro p
  have hp : p = (start t).advance ns.sum := foldl_advance (start t) ns
  have ht : p.text = t := by rw [hp, text_advance, text_start]
  have hsize : p.size = t.length := congrArg List.length ht
  have hcolumn : p.column = min ns.sum t.length := by
    rw [hp, column_advance, column_start, Nat.zero_add]
    rfl
  refine ⟨hsize, hcolumn, p.column_le_advance, fun offset => ?_, fun offset n => ?_,
    fun column => ?_, fun offset q => ?_, fun w => startsWith_iff,
    fun offset q c => p.of_mem_slice_runLength offset q,
    fun offset q c => p.not_of_mem_peek?_runLength offset q⟩
  · rw [peek?_eq, ht]
  · rw [slice_eq, ht]
  · rw [textFrom_eq, ht, hsize]
  · rw [runLength_eq, ht]

/-- A word between two blanks, behind a letter that two bytes encode. -/
theorem view_of_advances_word :
    let p := [1, 2].foldl advance (start "é( and 1".toList)
    'd' ∈ p.slice 0 (p.runLength 0 Char.isAlpha) ∧ 'd'.isAlpha ∧
      ' ' ∈ p.peek? (0 + p.runLength 0 Char.isAlpha) ∧ ¬ ' '.isAlpha ∧ p.column = 3 := by
  intro p
  have hd : 'd' ∈ p.slice 0 (p.runLength 0 Char.isAlpha) := by decide
  have hb : ' ' ∈ p.peek? (0 + p.runLength 0 Char.isAlpha) := by decide
  obtain ⟨-, hcolumn, -, -, -, -, -, -, hrow, hstop⟩ := view_of_advances "é( and 1".toList [1, 2]
  exact ⟨hd, hrow 0 Char.isAlpha 'd' hd, hb, hstop 0 Char.isAlpha ' ' hb, hcolumn⟩

end RuleCheck.Place
