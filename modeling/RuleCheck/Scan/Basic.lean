import RuleCheck.Text.Place
import RuleCheck.Lexeme.Form
import RuleCheck.Grammar.Progress

/-!
# Scan — states and steps

A scan of an expression stands at a place, with the progress made so far and the first fault that
was reported.  A step reads the lexeme at the place and asks whether it may come there.  Then it
writes twice: the place goes on behind the lexeme, and the progress past its kind.  A step that
fails leaves what it has written by then, as one that succeeds does (`Scan.advance`).

All that a step can do is said once (`Scan.step_eq`).  What can fail comes before what is written,
so that a step that fails leaves the scan that it was taken at.  One that succeeds leaves less
ahead (`Scan.length_ahead_accept_lt`).
-/

namespace RuleCheck

structure Scan where
  place : Place
  progress : Progress
  /-- The first of the faults reported, if any was. -/
  reported : Verdict
deriving DecidableEq

/-- A lexeme that was accepted, and the column where it begins. -/
structure Acceptance where
  column : Nat
  lexeme : Lexeme
  /-- What may come next. -/
  slots : Slots
deriving DecidableEq

namespace Scan

def start (t : Text) : Scan := ⟨.start t, .start, .accepted⟩

/-- The scan with its place `n` characters on. -/
def move (s : Scan) (n : Nat) : Scan := { s with place := s.place.advance n }

/-- The scan with its progress past a lexeme of the kind. -/
def pass (s : Scan) (k : Kind) : Scan := { s with progress := s.progress.after k }

/-- The scan with the fault reported. -/
def report (s : Scan) (f : Fault) : Scan := { s with reported := s.reported.add f }

/-- How a step ends, and the scan that it leaves.  At the end of the text the character that is
found missing is the null character. -/
def step : Scan → EStateM.Result Fault Scan Acceptance := EStateM.run do
  let column := (← get).place.column
  match read (← get).place.ahead with
  | .nothing                   => throw ⟨column, .unknown ((← get).place.ahead.headD '\x00')⟩
  | .badEscape offset sequence => throw ⟨column + offset, .badEscape sequence⟩
  | .lexeme l =>
      unless (← get).progress.admits l.kind do throw ⟨column, .unexpected l.kind⟩
      modify (·.move l.width)
      modify (·.pass l.kind)
      -- the column is that from before, and what may come that from after
      return ⟨column, l, (← get).progress.slots⟩

/-- The scan that a step leaves, whether it succeeds or not. -/
def advance (s : Scan) : Scan :=
  match s.step with
  | .ok _ s' | .error _ s' => s'

/-! ### What a step does -/

/-- The lexeme at the place, if it may come there. -/
def next (s : Scan) : Except Fault Lexeme :=
  match read s.place.ahead with
  | .nothing                   => .error ⟨s.place.column, .unknown (s.place.ahead.headD '\x00')⟩
  | .badEscape offset sequence => .error ⟨s.place.column + offset, .badEscape sequence⟩
  | .lexeme l =>
      if s.progress.admits l.kind then .ok l
      else .error ⟨s.place.column, .unexpected l.kind⟩

/-- The scan behind a lexeme. -/
def accept (s : Scan) (l : Lexeme) : Scan := (s.move l.width).pass l.kind

section
variable (s : Scan) (l : Lexeme)

@[simp] theorem place_accept : (s.accept l).place = s.place.advance l.width := rfl

@[simp] theorem progress_accept : (s.accept l).progress = s.progress.after l.kind := rfl

@[simp] theorem reported_accept : (s.accept l).reported = s.reported := rfl

/-- **A step takes the next lexeme, or it fails and has written nothing.** -/
theorem step_eq :
    s.step = match s.next with
      | .ok l    => .ok ⟨s.place.column, l, (s.accept l).progress.slots⟩ (s.accept l)
      | .error f => .error f s := by
  unfold step next
  cases hr : read s.place.ahead with
  | nothing =>
      simp only [EStateM.run_bind, EStateM.run_get, hr]
      rfl
  | badEscape offset sequence =>
      simp only [EStateM.run_bind, EStateM.run_get, hr]
      rfl
  | lexeme l =>
      cases ha : s.progress.admits l.kind <;>
        · simp only [EStateM.run_bind, EStateM.run_get, hr, ha]
          rfl

end

variable {s s' : Scan} {l : Lexeme} {f : Fault} {a : Acceptance}

theorem step_eq_ok_iff :
    s.step = .ok a s' ↔ ∃ l, s.next = .ok l ∧
      ⟨s.place.column, l, (s.accept l).progress.slots⟩ = a ∧ s.accept l = s' := by
  rw [step_eq]
  cases s.next with
  | ok l => simp
  | error f => simp

theorem step_eq_error_iff : s.step = .error f s' ↔ s.next = .error f ∧ s = s' := by
  rw [step_eq]
  cases s.next with
  | ok l => simp
  | error g => simp

theorem advance_of_ok (h : s.next = .ok l) : s.advance = s.accept l := by
  rw [advance, step_eq, h]

theorem advance_of_error (h : s.next = .error f) : s.advance = s := by
  rw [advance, step_eq, h]

theorem read_of_next (h : s.next = .ok l) : read s.place.ahead = .lexeme l := by
  simp only [next] at h
  split at h
  · cases h
  · cases h
  · split at h <;> cases h
    assumption

theorem admits_of_next (h : s.next = .ok l) : s.progress.admits l.kind := by
  simp only [next] at h
  split at h
  · cases h
  · cases h
  · split at h <;> cases h
    assumption

theorem length_ahead_accept_lt (h : s.next = .ok l) :
    (s.accept l).place.ahead.length < s.place.ahead.length := by
  have hr := read_of_next h
  have := width_pos hr
  have := width_le_length hr
  simp only [place_accept, Place.ahead_advance, List.length_drop]
  omega

end Scan

end RuleCheck
