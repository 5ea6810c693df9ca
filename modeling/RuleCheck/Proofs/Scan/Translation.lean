import RuleCheck.Proofs.Lexeme.Recognition
import RuleCheck.Proofs.Scan.Insertion

/-!
# Proofs — Scan — texts that go on alike

**A scan depends only on what lies ahead** (`scan_shift`).  At places with the same ahead of them,
in whatever texts, every form finds the same, and scans with the same progress come to the same
verdict; only the columns of their faults are apart, by as much as the places are.  So are those of
what had been reported before, if anything was.  Hence blanks before a text move its fault by their
number (`check_append_blanks`).  Spaces need not where a word comes behind them, since one may begin
an operator with it.

Two such scans are alike (`Scan.Alike`), and stay alike step by step.
-/

namespace RuleCheck

/-- The verdict with its fault `n` columns farther on. -/
def Verdict.shift (n : Nat) : Verdict → Verdict
  | accepted   => accepted
  | rejected f => rejected (f.shift n)

@[simp] theorem Verdict.shift_zero (v : Verdict) : v.shift 0 = v := by
  cases v with
  | accepted => rfl
  | rejected f => rw [shift, Fault.shift, Nat.zero_add]

theorem Verdict.shift_eq_accepted_iff {v : Verdict} {n : Nat} :
    v.shift n = .accepted ↔ v = .accepted := by
  cases v with
  | accepted => exact Iff.rfl
  | rejected f => exact ⟨nofun, nofun⟩

namespace Scan

/-- A step recognizes what stands at its place, and looks whether that may come. -/
theorem next_eq (s : Scan) :
    s.next = match recognize s.place with
      | .error f     => .error f
      | .ok none     => .error ⟨s.place.column, .unknown (s.place.ahead.headD '\x00')⟩
      | .ok (some l) =>
          if s.progress.admits l.kind then .ok l
          else .error ⟨s.place.column, .unexpected l.kind⟩ := by
  rw [next, recognize_eq]
  cases read s.place.ahead <;> rfl

/-- Scans with the same progress, and the same ahead of them: their columns, and those reported,
agree when they are counted on from `m` and from `n`. -/
structure Alike (m n : Nat) (s s' : Scan) : Prop where
  ahead : s.place.ahead = s'.place.ahead
  progress : s.progress = s'.progress
  column : m + s.place.column = n + s'.place.column
  reported : s.reported.shift m = s'.reported.shift n

namespace Alike

variable {m n : Nat} {s s' : Scan}

theorem next_shift (h : Alike m n s s') :
    s.next.mapError (Fault.shift m) = s'.next.mapError (Fault.shift n) := by
  have hr := recognize_shift h.ahead h.column
  rw [next_eq, next_eq, h.ahead, h.progress]
  match recognize s.place, recognize s'.place, hr with
  | .error f, .error g, hr => exact congrArg Except.error (Except.error.inj hr)
  | .ok none, .ok none, _ => simp [Except.mapError, Fault.shift, h.column]
  | .ok (some l), .ok (some k), hr =>
      obtain rfl : l = k := Option.some.inj (Except.ok.inj hr)
      dsimp only
      split
      · rfl
      · simp [Except.mapError, Fault.shift, h.column]

theorem accept {l : Lexeme} (h : Alike m n s s') (hl : read s.place.ahead = .lexeme l) :
    Alike m n (s.accept l) (s'.accept l) where
  ahead := congrArg (List.drop l.width) h.ahead
  progress := congrArg (Progress.after · l.kind) h.progress
  column := by
    rw [column_accept hl, column_accept (h.ahead ▸ hl), ← Nat.add_assoc, h.column, Nat.add_assoc]
  reported := h.reported

theorem reported_eq_accepted (h : Alike m n s s') (hv : s.reported = .accepted) :
    s'.reported = .accepted := by
  have hr := h.reported
  rw [hv] at hr
  exact Verdict.shift_eq_accepted_iff.mp hr.symm

theorem finish_shift (h : Alike m n s s') : s.finish.shift m = s'.finish.shift n := by
  have hsize : m + s.place.size = n + s'.place.size := by
    rw [Place.size_eq, Place.size_eq, ← Nat.add_assoc, h.column, h.ahead, Nat.add_assoc]
  rw [finish, finish, h.progress]
  cases s'.progress.missing? with
  | none => rfl
  | some c => simp [Verdict.shift, Fault.shift, hsize]

theorem next_of_error {f : Fault} (h : Alike m n s s') (hf : s.next = .error f) :
    ∃ g, s'.next = .error g ∧ f.shift m = g.shift n := by
  have hn := h.next_shift
  rw [hf] at hn
  cases hg : s'.next with
  | error g =>
      rw [hg] at hn
      exact ⟨g, rfl, Except.error.inj hn⟩
  | ok l =>
      rw [hg] at hn
      cases hn

theorem next_of_ok {l : Lexeme} (h : Alike m n s s') (hl : s.next = .ok l) :
    s'.next = .ok l := by
  have hn := h.next_shift
  rw [hl] at hn
  cases hk : s'.next with
  | error g =>
      rw [hk] at hn
      cases hn
  | ok k =>
      rw [hk] at hn
      exact hn.symm

theorem verdict_shift_of_accepted (h : Alike m n s s') (hv : s.reported = .accepted) :
    s.run.verdict.shift m = s'.run.verdict.shift n := by
  induction s, hv using run_induction generalizing s' with
  | stop s hv hs =>
      rw [run_of_end hv hs, run_of_end (h.reported_eq_accepted hv) (h.ahead ▸ hs)]
      exact h.finish_shift
  | fail s hv f hs hf =>
      obtain ⟨g, hg, hfg⟩ := h.next_of_error hf
      rw [run_of_error hv hs hf, run_of_error (h.reported_eq_accepted hv) (h.ahead ▸ hs) hg]
      exact congrArg Verdict.rejected hfg
  | goOn s hv l hl ih =>
      rw [run_of_ok hv hl, run_of_ok (h.reported_eq_accepted hv) (h.next_of_ok hl)]
      exact ih (h.accept (read_of_next hl))

/-- **Scans that are alike come to the same verdict**, by induction on the run, or because the
same has been reported already. -/
theorem verdict_shift (h : Alike m n s s') : s.run.verdict.shift m = s'.run.verdict.shift n := by
  cases hv : s.reported with
  | accepted => exact h.verdict_shift_of_accepted hv
  | rejected f =>
      have hr := h.reported
      cases hv' : s'.reported with
      | accepted =>
          rw [hv, hv'] at hr
          cases hr
      | rejected g =>
          rw [hv, hv'] at hr
          rw [run_of_rejected hv, run_of_rejected hv']
          exact hr

end Alike

end Scan

/-! ### Blanks before a text -/

/-- Blanks before a text are steps that leave the progress as it is. -/
theorem check_append_blanks {w t : Text} (hw : ∀ c ∈ w, c.isWhitespace)
    (hs : ' ' ∈ w → ∀ d ∈ t.head?, ¬ Form.isWordChar d) :
    check (w ++ t) = (check t).shift w.length := by
  have ha : Slots.start.AdmitsRow ((blanks w).map Lexeme.kind) := by
    rw [← Slots.admitsRow_kinds, kinds_blanks]
    trivial
  obtain ⟨s, h, hahead⟩ :=
    Scan.exists_steps (s := .start (w ++ t)) (lexes_blanks hw hs) rfl ha
  have hsize : s.place.size = (w ++ t).length := congrArg List.length h.text_eq
  have hlike : Scan.Alike 0 w.length s (.start t) := by
    refine ⟨hahead, ?_, ?_, congrArg (Verdict.shift 0) h.reported_eq⟩
    · rw [h.progress_eq, ← Progress.afterRow_kinds, kinds_blanks]
      rfl
    · rw [Place.size_eq, hahead, List.length_append] at hsize
      rw [Nat.zero_add]
      exact Nat.add_right_cancel hsize
  rw [h.check_eq, ← Verdict.shift_zero s.run.verdict, hlike.verdict_shift]
  rfl

/-- The place behind the first of two texts. -/
theorem Place.advance_start_append (u r : Text) :
    (Place.start (u ++ r)).advance u.length = ⟨u.reverse, r⟩ := by
  simp [Place.start, Place.advance]

/-- **A scan depends only on what lies ahead.** -/
theorem scan_shift (u v r : Text) :
    let p := (Place.start (u ++ r)).advance u.length
    let q := (Place.start (v ++ r)).advance v.length
    (∀ f : Form, (f.recognize p).mapError (Fault.shift v.length) =
        (f.recognize q).mapError (Fault.shift u.length)) ∧
      (recognize p).mapError (Fault.shift v.length) =
        (recognize q).mapError (Fault.shift u.length) ∧
      (∀ (g : Progress) (a b : Verdict), a.shift v.length = b.shift u.length →
        (Scan.mk p g a).run.verdict.shift v.length =
          (Scan.mk q g b).run.verdict.shift u.length) ∧
      ∀ w : Text, (∀ c ∈ w, c = '\t' ∨ c = '\n' ∨ c = '\r') →
        check (w ++ r) = (check r).shift w.length := by
  intro p q
  have hp : p = ⟨u.reverse, r⟩ := Place.advance_start_append u r
  have hq : q = ⟨v.reverse, r⟩ := Place.advance_start_append v r
  have ha : p.ahead = q.ahead := by rw [hp, hq]
  have hc : v.length + p.column = u.length + q.column := by
    simp [hp, hq, Place.column, Nat.add_comm]
  refine ⟨fun f => f.recognize_shift ha hc, recognize_shift ha hc,
    fun g a b hab => Scan.Alike.verdict_shift ⟨ha, rfl, hc, hab⟩,
    fun w hw => check_append_blanks ?_ ?_⟩
  · intro c hcw
    rcases hw c hcw with rfl | rfl | rfl <;> rfl
  · intro hs
    have := hw _ hs
    contradiction

/-- A bad escape behind blanks.  Of the text without its blanks a run at which a fault was reported
three columns earlier reports that fault. -/
theorem scan_shift_bad_escape :
    let r : Text := "f('a\\q')".toList
    let p := (Place.start ("\t\r\n".toList ++ r)).advance 3
    let f : Fault := ⟨5, .incomplete⟩
    let g : Fault := ⟨2, .incomplete⟩
    (∀ c ∈ "\t\r\n".toList, c = '\t' ∨ c = '\n' ∨ c = '\r') ∧
      (Verdict.rejected f).shift 0 = (Verdict.rejected g).shift 3 ∧
      ((Scan.mk p .start (.rejected f)).run.verdict.shift 0 =
        (Scan.mk (.start r) .start (.rejected g)).run.verdict.shift 3) ∧
      check r = .rejected ⟨4, .badEscape ['q']⟩ ∧
      check ("\t\r\n".toList ++ r) = .rejected ⟨7, .badEscape ['q']⟩ := by
  intro r p f g
  have hw : ∀ c ∈ "\t\r\n".toList, c = '\t' ∨ c = '\n' ∨ c = '\r' := by simp
  have h : check r = .rejected ⟨4, .badEscape ['q']⟩ := by decide +kernel
  obtain ⟨-, -, hr, hb⟩ := scan_shift "\t\r\n".toList [] r
  refine ⟨hw, rfl, hr .start (.rejected f) (.rejected g) rfl, h, (hb _ hw).trans ?_⟩
  rw [h]
  rfl

end RuleCheck
