import Mathlib.Logic.Function.Iterate
import RuleCheck.Proofs.Scan.Steps

/-!
# Proofs — Scan — steps taken one at a time

A scan can be taken on step by step, whether its steps succeed or not, and be run from where it is
then.  **A step that fails leaves the scan as it was**, place, progress and report, although it
could have written to it, and every step after it fails with the same fault; **the run from there
ends in the verdict on the text**, after any number of steps (`resume`).  So it does at the end of
the text, where no step succeeds and a run may accept: a run takes no step there, and reports what
is missing instead.

Up to the first that fails, the steps are those of the run (`Scan.steps_taken`), and as many as
there are characters ahead accept all that the run accepts (`Scan.taken_eq`).
-/

namespace RuleCheck

namespace Scan

variable {s s' : Scan} {f : Fault} {l : Lexeme}

/-- The lexemes that `n` steps accept.  A step that fails accepts none. -/
def taken : Nat → Scan → List Lexeme
  | 0,     _ => []
  | n + 1, s =>
      match s.step with
      | .ok a s'    => a.lexeme :: taken n s'
      | .error _ s' => taken n s'

theorem taken_succ_of_ok (n : Nat) (h : s.next = .ok l) :
    s.taken (n + 1) = l :: (s.accept l).taken n := by
  rw [taken, step_eq, h]

theorem taken_succ_of_error (n : Nat) (h : s.next = .error f) : s.taken (n + 1) = s.taken n := by
  rw [taken, step_eq, h]

/-- **Any number of steps**, of which some may fail, leads as far as those that succeed. -/
theorem steps_taken (s : Scan) (n : Nat) : Steps s (s.taken n) (advance^[n] s) := by
  induction n generalizing s with
  | zero => exact .refl s
  | succ n ih =>
      rw [Function.iterate_succ_apply]
      cases hn : s.next with
      | ok l =>
          rw [taken_succ_of_ok n hn, advance_of_ok hn]
          exact .more hn (ih (s.accept l))
      | error f =>
          rw [taken_succ_of_error n hn, advance_of_error hn]
          exact ih s

theorem exists_steps_iterate (s : Scan) (n : Nat) : ∃ r, Steps s r (advance^[n] s) :=
  ⟨_, s.steps_taken n⟩

/-- **A step that fails has written nothing.** -/
theorem eq_of_step_error (h : s.step = .error f s') : s' = s := (step_eq_error_iff.mp h).2.symm

/-- A scan at which a step fails is stuck there. -/
theorem iterate_advance_of_error (h : s.step = .error f s') (m : Nat) : advance^[m] s = s :=
  Function.iterate_fixed (advance_of_error (step_eq_error_iff.mp h).1) m

/-- At the end of the text a step finds a character missing. -/
theorem step_of_end (h : s.place.ahead = []) :
    s.step = .error ⟨s.place.size, .unknown '\x00'⟩ s := by
  refine step_eq_error_iff.mpr ⟨?_, rfl⟩
  rw [next, h, read_nil, Place.size_eq, h]
  rfl

theorem taken_of_error (h : s.next = .error f) (n : Nat) : s.taken n = [] := by
  induction n with
  | zero => rfl
  | succ n ih => rw [taken_succ_of_error n h, ih]

/-- As many steps as there are characters ahead, or more, accept what the run accepts. -/
theorem taken_eq (hv : s.reported = .accepted) {n : Nat} (hn : s.place.ahead.length ≤ n) :
    s.taken n = s.run.accepted.map Acceptance.lexeme := by
  induction s, hv using run_induction generalizing n with
  | stop s hv he =>
      rw [run_of_end hv he, taken_of_error (step_eq_error_iff.mp (step_of_end he)).1]
      rfl
  | fail s hv f he hf =>
      rw [run_of_error hv he hf, taken_of_error hf]
      rfl
  | goOn s hv l hl ih =>
      have hlt := length_ahead_accept_lt hl
      obtain ⟨m, rfl⟩ : ∃ m, n = m + 1 := ⟨n - 1, by omega⟩
      rw [run_of_ok hv hl, taken_succ_of_ok m hl, ih (show _ ≤ m by omega), Run.cons, List.map_cons]

end Scan

/-- **Steps can be taken one at a time**, and the run resumed after them.  A step that fails leaves
the scan that it was taken at, and so does every step after it, with the same fault.  At the end of
the text a step fails, but the run from there reports what any run of the text does. -/
theorem resume (t : Text) (n : Nat) :
    let s := Scan.advance^[n] (.start t)
    (∀ f s', s.step = .error f s' →
        s' = s ∧ ∀ m, (Scan.advance^[m] s').step = .error f s') ∧
      (s.place.ahead = [] → s.step = .error ⟨t.length, .unknown '\x00'⟩ s) ∧
      s.run.verdict = check t := by
  intro s
  obtain ⟨r, hr⟩ := (Scan.start t).exists_steps_iterate n
  refine ⟨fun f s' hf => ?_, fun he => ?_, hr.check_eq.symm⟩
  · obtain rfl := Scan.eq_of_step_error hf
    exact ⟨rfl, fun m => by rw [Scan.iterate_advance_of_error hf, hf]⟩
  · have hsize : s.place.size = t.length := congrArg List.length hr.text_eq
    rw [← hsize]
    exact Scan.step_of_end he

/-- Steps beyond a fault, and steps beyond the end of a text that is accepted. -/
theorem resume_beyond :
    let s := Scan.advance^[3] (.start "1 2".toList)
    let e := Scan.advance^[5] (.start "f()".toList)
    s.step = .error ⟨2, .unexpected .number⟩ s ∧
      (Scan.advance^[4] s).step = .error ⟨2, .unexpected .number⟩ s ∧
      s.run.verdict = .rejected ⟨2, .unexpected .number⟩ ∧
      e.place.ahead = [] ∧ e.step = .error ⟨3, .unknown '\x00'⟩ e ∧ e.run.verdict = .accepted := by
  intro s e
  have hf : s.step = .error ⟨2, .unexpected .number⟩ s := rfl
  have he : e.place.ahead = [] := by decide +kernel
  obtain ⟨hs, -, hv⟩ := resume "1 2".toList 3
  obtain ⟨-, hs', hv'⟩ := resume "f()".toList 5
  refine ⟨hf, (hs _ _ hf).2 4, hv.trans ?_, he, hs' he, hv'.trans ?_⟩ <;> decide +kernel

end RuleCheck
