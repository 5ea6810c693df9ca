import RuleCheck.Scan.Basic

/-!
# Scan — runs

A run takes steps as long as something is ahead and nothing has been reported (`Scan.goesOn`).  A
step that fails is reported, and so is what is missing at the end of the expression, if nothing was
before (`Scan.close`): the verdict is the fault reported, if there is one.  The run keeps each
lexeme accepted.  `check` is the verdict of the run from the start.

A run of a scan at which nothing has been reported is followed from its end or its first fault back
to its beginning (`Scan.run_induction`).
-/

namespace RuleCheck

structure Run where
  accepted : List Acceptance
  verdict : Verdict
deriving DecidableEq

/-- The run that begins with one acceptance and goes on with the run `r`. -/
def Run.cons (a : Acceptance) (r : Run) : Run := ⟨a :: r.accepted, r.verdict⟩

namespace Scan

/-- Whether a run takes another step. -/
def goesOn (s : Scan) : Bool := !s.place.atEnd && s.reported.isAccepted

/-- The verdict when nothing is left ahead. -/
def finish (s : Scan) : Verdict :=
  match s.progress.missing? with
  | none   => .accepted
  | some c => .rejected ⟨s.place.size, c⟩

/-- The scan with what is missing at its end reported, unless a fault was before. -/
def close (s : Scan) : Scan :=
  match s.reported, s.finish with
  | .accepted, .rejected f => s.report f
  | _, _                   => s

/-- How many steps a run may still take, one of which may fail. -/
def stepsLeft (s : Scan) : Nat := if s.reported.isAccepted then s.place.ahead.length + 1 else 0

theorem stepsLeft_lt_of_ok {s s' : Scan} {a : Acceptance} (hg : s.goesOn) (h : s.step = .ok a s') :
    s'.stepsLeft < s.stepsLeft := by
  obtain ⟨l, hl, -, rfl⟩ := step_eq_ok_iff.mp h
  have hv : s.reported.isAccepted := (Bool.and_eq_true_iff.mp hg).2
  have := length_ahead_accept_lt hl
  rw [stepsLeft, stepsLeft, reported_accept, if_pos hv, if_pos hv]
  omega

theorem stepsLeft_report_lt {s s' : Scan} {f : Fault} (hg : s.goesOn) :
    (s'.report f).stepsLeft < s.stepsLeft := by
  have hr : (s'.report f).stepsLeft = 0 := if_neg (by simp [report])
  rw [hr, stepsLeft, if_pos (Bool.and_eq_true_iff.mp hg).2]
  exact Nat.succ_pos _

def run (s : Scan) : Run :=
  if _hg : s.goesOn then
    match _h : s.step with
    | .ok a s'    => s'.run.cons a
    | .error f s' => (s'.report f).run
  else ⟨[], s.close.reported⟩
termination_by s.stepsLeft
decreasing_by
  · exact stepsLeft_lt_of_ok _hg _h
  · exact stepsLeft_report_lt _hg

/-! ### Runs step by step -/

variable {s s' : Scan} {l : Lexeme} {f : Fault} {a : Acceptance}

theorem run_of_stop (hg : s.goesOn = false) : s.run = ⟨[], s.close.reported⟩ := by
  rw [run, dif_neg (by simp [hg])]

theorem run_of_step_ok (hg : s.goesOn) (h : s.step = .ok a s') : s.run = s'.run.cons a := by
  rw [run, dif_pos hg]
  split <;> simp_all

theorem run_of_step_error (hg : s.goesOn) (h : s.step = .error f s') :
    s.run = (s'.report f).run := by
  rw [run, dif_pos hg]
  split <;> simp_all

theorem goesOn_iff : s.goesOn ↔ s.place.ahead ≠ [] ∧ s.reported = .accepted := by
  rw [goesOn, Bool.and_eq_true, Verdict.isAccepted_iff, Place.atEnd]
  simp

/-- A run does not go on behind a fault. -/
theorem run_of_rejected (h : s.reported = .rejected f) : s.run = ⟨[], .rejected f⟩ := by
  have hg : s.goesOn = false := eq_false_of_ne_true fun hg => by
    rw [(goesOn_iff.mp hg).2] at h
    cases h
  rw [run_of_stop hg, close, h]
  exact congrArg (Run.mk []) h

theorem run_of_end (hv : s.reported = .accepted) (h : s.place.ahead = []) :
    s.run = ⟨[], s.finish⟩ := by
  have hg : s.goesOn = false := eq_false_of_ne_true fun hg => (goesOn_iff.mp hg).1 h
  rw [run_of_stop hg, close, hv]
  cases hf : s.finish with
  | accepted => exact congrArg (Run.mk []) hv
  | rejected f => exact congrArg (fun v => Run.mk [] (Verdict.add v f)) hv

theorem run_of_error (hv : s.reported = .accepted) (ne : s.place.ahead ≠ [])
    (h : s.next = .error f) : s.run = ⟨[], .rejected f⟩ := by
  rw [run_of_step_error (goesOn_iff.mpr ⟨ne, hv⟩) (step_eq_error_iff.mpr ⟨h, rfl⟩)]
  exact run_of_rejected (congrArg (Verdict.add · f) hv)

theorem run_of_ok (hv : s.reported = .accepted) (h : s.next = .ok l) :
    s.run = (s.accept l).run.cons ⟨s.place.column, l, (s.accept l).progress.slots⟩ := by
  have ne : s.place.ahead ≠ [] := by
    intro he
    have := length_ahead_accept_lt h
    simp [he] at this
  exact run_of_step_ok (goesOn_iff.mpr ⟨ne, hv⟩) (step_eq_ok_iff.mpr ⟨l, h, rfl, rfl⟩)

/-- **Induction along a run** at whose beginning nothing has been reported. -/
theorem run_induction {motive : (s : Scan) → s.reported = .accepted → Prop}
    (stop : ∀ s hv, s.place.ahead = [] → motive s hv)
    (fail : ∀ s hv f, s.place.ahead ≠ [] → s.next = .error f → motive s hv)
    (goOn : ∀ s hv l, s.next = .ok l → motive (s.accept l) hv → motive s hv)
    (s : Scan) (hv : s.reported = .accepted) : motive s hv := by
  by_cases he : s.place.ahead = []
  · exact stop s hv he
  · cases h : s.next with
    | error f => exact fail s hv f he h
    | ok l => exact goOn s hv l h (run_induction stop fail goOn (s.accept l) hv)
termination_by s.place.ahead.length
decreasing_by exact length_ahead_accept_lt h

end Scan

/-- Whether a text is an expression, and what is wrong first if it is not. -/
def check (t : Text) : Verdict := (Scan.start t).run.verdict

end RuleCheck
