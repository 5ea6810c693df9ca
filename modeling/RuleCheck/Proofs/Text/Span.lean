import Mathlib.Data.List.TakeWhile
import RuleCheck.Text.Basic

/-!
# Proofs — Text — the longest row of characters of a kind

The characters of a kind at the beginning of a text, up to the first that is none, and what that
one begins.
-/

namespace RuleCheck

theorem takeWhile_append_of_stop {p : Char → Bool} {w r : Text} (hw : ∀ c ∈ w, p c)
    (hr : ∀ c ∈ r.head?, ¬ p c) : (w ++ r).takeWhile p = w := by
  rw [List.takeWhile_append_of_pos hw]
  cases r with
  | nil => simp
  | cons c r => simp [hr c rfl]

theorem dropWhile_append_of_stop {p : Char → Bool} {w r : Text} (hw : ∀ c ∈ w, p c)
    (hr : ∀ c ∈ r.head?, ¬ p c) : (w ++ r).dropWhile p = r := by
  rw [List.dropWhile_append_of_pos hw]
  cases r with
  | nil => simp
  | cons c r => simp [hr c rfl]

theorem not_of_mem_head?_dropWhile {p : Char → Bool} {t : Text} {c : Char}
    (h : c ∈ (t.dropWhile p).head?) : ¬ p c := by
  have hn := List.head?_dropWhile_not p t
  rw [Option.mem_def.mp h] at hn
  simp [hn]

/-- What stops a row of characters stands right behind it. -/
theorem getElem?_length_takeWhile (p : Char → Bool) (t : Text) :
    t[(t.takeWhile p).length]? = (t.dropWhile p).head? := by
  induction t with
  | nil => rfl
  | cons c t ih =>
      by_cases hc : p c
      · rw [List.takeWhile_cons_of_pos hc, List.dropWhile_cons_of_pos hc, List.length_cons,
          List.getElem?_cons_succ, ih]
      · rw [List.takeWhile_cons_of_neg hc, List.dropWhile_cons_of_neg hc]
        rfl

/-- A text is cut in one way only before its first `c`. -/
theorem append_cons_inj {c : Char} {x y x' y' : Text} (hx : c ∉ x) (hx' : c ∉ x')
    (h : x ++ c :: y = x' ++ c :: y') : x = x' ∧ y = y' := by
  have hs : ∀ {z : Text}, c ∉ z → ∀ w, (z ++ c :: w).takeWhile (· ≠ c) = z := fun hz w =>
    takeWhile_append_of_stop (fun d hd => by simpa using fun he : d = c => hz (he ▸ hd)) (by simp)
  obtain rfl : x = x' := (hs hx y).symm.trans ((congrArg _ h).trans (hs hx' y'))
  exact ⟨rfl, List.cons_inj_right c |>.mp (List.append_cancel_left h)⟩

/-- A text is the longest row of characters of a kind at its beginning, and what stops the row. -/
theorem exists_run (p : Char → Bool) (t : Text) :
    ∃ r, t = t.takeWhile p ++ r ∧ (∀ c ∈ t.takeWhile p, p c) ∧ ∀ c ∈ r.head?, ¬ p c :=
  ⟨t.dropWhile p, List.takeWhile_append_dropWhile.symm, fun _ => List.mem_takeWhile_imp,
    fun _ => not_of_mem_head?_dropWhile⟩

end RuleCheck
