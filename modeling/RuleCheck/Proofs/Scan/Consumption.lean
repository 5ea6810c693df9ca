import RuleCheck.Proofs.Lexeme.Recognition
import RuleCheck.Proofs.Scan.Steps

/-!
# Proofs — Scan — what is consumed

**A lexeme takes the characters that spell it**, at least one and no more than there are, and these
alone are read as the same lexeme (`Spells.read_self`).  Only a word operator is not: its last blank
is then the end of the text, and its first blank is read (`Lexeme.alone`).

So each step brings a scan nearer to the end of its text (`Scan.column_lt_of_step`), a run needs no
more steps than there are characters (`Scan.runWithin_eq`), and **no character is lost or taken
twice**: one behind the other, the characters of the lexemes accepted are the text up to where the
run ends (`Scan.flatten_sources`).
-/

namespace RuleCheck

/-! ### The characters of a lexeme alone -/

/-- What is read of the characters of a lexeme when nothing is behind them. -/
def Lexeme.alone (l : Lexeme) : Lexeme :=
  match l.token with
  | .operator op => if op.isWord then ⟨.blank, 1⟩ else l
  | _            => l

theorem Lexeme.alone_operator (op : Operator) (n : Nat) :
    Lexeme.alone ⟨.operator op, n⟩ = if op.isWord then ⟨.blank, 1⟩ else ⟨.operator op, n⟩ := rfl

/-- With nothing behind it a word operator is none, and its first blank is read. -/
theorem Operator.read_spelling {op : Operator} (h : op.isWord) :
    read op.spelling = .single .blank := by
  revert h
  cases op <;> decide

/-- All but the word operators are clear of the end of the text. -/
theorem Spells.clear_end {k : Token} {w : Text} (h : Spells k w)
    (hw : ∀ op, k = .operator op → ¬ op.isWord) : Clear k w [] := by
  cases h with
  | operator op => exact fun ho => absurd ho (hw op rfl)
  | @blank c hc =>
      intro op hop
      -- one character is too short for an operator
      have := (Operator.begins_iff.mp hop).1.length_le
      have := op.two_le_length_spelling
      simp only [List.append_nil, List.length_singleton] at *
      omega
  | number | function | var | path => exact nofun
  | boolean | string | leftParen | rightParen | comma | plus | minus => trivial

theorem Spells.read_self {k : Token} {w : Text} (h : Spells k w) :
    read w = .lexeme (Lexeme.alone ⟨k, w.length⟩) := by
  by_cases hw : ∃ op : Operator, k = .operator op ∧ op.isWord
  · obtain ⟨op, rfl, ho⟩ := hw
    cases h
    rw [Operator.read_spelling ho, Lexeme.alone_operator, if_pos ho, Reading.single]
  · have hw : ∀ op, k = .operator op → ¬ op.isWord := fun op hk ho => hw ⟨op, hk, ho⟩
    have ha : Lexeme.alone ⟨k, w.length⟩ = ⟨k, w.length⟩ := by
      cases k with
      | operator op => exact if_neg (hw op rfl)
      | _ => rfl
    have := read_append h (h.clear_end hw)
    rwa [List.append_nil, ← ha] at this

theorem recognize_eq_ok_iff {p : Place} {l : Lexeme} :
    recognize p = .ok (some l) ↔ read p.ahead = .lexeme l := by
  rw [recognize_eq]
  cases read p.ahead <;> simp [Reading.outcome]

/-- **What is recognized takes the characters that spell it.** -/
theorem recognize_slice {p : Place} {l : Lexeme} (h : recognize p = .ok (some l)) :
    Spells l.token (p.slice 0 l.width) ∧
      recognize (.start (p.slice 0 l.width)) = .ok (some l.alone) := by
  obtain ⟨w, r, ha, hw, hs, -⟩ := stands_of_read (recognize_eq_ok_iff.mp h)
  have hp : p.slice 0 l.width = w := by
    rw [Place.slice, List.drop_zero, ha, ← hw, List.take_left]
  rw [hp, recognize_eq_ok_iff, Place.ahead_start, hs.read_self, hw]
  exact ⟨hs, rfl⟩

namespace Scan

variable {s s' : Scan} {a : Acceptance} {l : Lexeme} {n : Nat}

/-! ### Steps go on -/

theorem size_accept : (s.accept l).place.size = s.place.size :=
  congrArg List.length (Place.text_advance ..)

/-- **A step goes on**, and not past the end of the text. -/
theorem column_lt_of_step (h : s.step = .ok a s') :
    s.place.column < s'.place.column ∧ s'.place.column ≤ s.place.size := by
  obtain ⟨l, hl, -, rfl⟩ := step_eq_ok_iff.mp h
  constructor
  · have := width_pos (read_of_next hl)
    rw [column_accept (read_of_next hl)]
    omega
  · rw [← size_accept (l := l)]
    exact Place.column_le_size _

/-! ### The number of steps -/

/-- The run, if at most `n` steps end it.  A step that fails is one of them. -/
def runWithin : Nat → Scan → Option Run
  | 0,     s => if s.goesOn then none else some ⟨[], s.close.reported⟩
  | n + 1, s =>
      if s.goesOn then
        match s.step with
        | .ok a s'    => (runWithin n s').map (.cons a)
        | .error f s' => runWithin n (s'.report f)
      else some ⟨[], s.close.reported⟩

theorem runWithin_of_stop (n : Nat) (hg : s.goesOn = false) : s.runWithin n = some s.run := by
  rw [run_of_stop hg]
  cases n <;> rw [runWithin, hg] <;> rfl

/-- **A run ends within one step for each character ahead.** -/
theorem runWithin_eq (h : s.place.ahead.length ≤ n) : s.runWithin n = some s.run := by
  induction n generalizing s with
  | zero =>
      have he : s.place.ahead = [] := List.length_eq_zero_iff.mp (Nat.le_zero.mp h)
      exact runWithin_of_stop 0 (eq_false_of_ne_true fun hg => (goesOn_iff.mp hg).1 he)
  | succ n ih =>
      by_cases hg : s.goesOn
      · rw [runWithin, if_pos hg]
        cases hs : s.step with
        | ok a s' =>
            obtain ⟨l, hl, -, rfl⟩ := step_eq_ok_iff.mp hs
            have := length_ahead_accept_lt hl
            rw [run_of_step_ok hg hs]
            exact congrArg (Option.map (Run.cons a)) (ih (by omega))
        | error f s' =>
            -- the fault is reported, and nothing goes on
            rw [run_of_step_error hg hs]
            exact runWithin_of_stop n (by simp [goesOn, report])
      · exact runWithin_of_stop (n + 1) (eq_false_of_ne_true hg)

/-! ### The text of a run -/

/-- The characters of the lexemes that a run accepts. -/
def sources (s : Scan) : List Text :=
  s.run.accepted.map fun a => (Place.start s.place.text).slice a.column a.lexeme.width

theorem sources_of_ok (hv : s.reported = .accepted) (h : s.next = .ok l) :
    s.sources = s.place.ahead.take l.width :: (s.accept l).sources := by
  rw [sources, run_of_ok hv h, Run.cons, List.map_cons, Place.ahead_eq_drop, sources, place_accept,
    Place.text_advance]
  rfl

/-- **No character is lost or taken twice** by a run up to where it ends. -/
theorem flatten_sources (hv : s.reported = .accepted) :
    s.sources.flatten ++ s.halt.place.ahead = s.place.ahead := by
  induction s, hv using run_induction with
  | stop s hv he =>
      rw [sources, run_of_end hv he, halt_of_end hv he]
      rfl
  | fail s hv f he hf =>
      rw [sources, run_of_error hv he hf, halt_of_error hv he hf]
      rfl
  | goOn s hv l hl ih =>
      rw [sources_of_ok hv hl, halt_of_ok hv hl, List.flatten_cons, List.append_assoc, ih,
        place_accept, Place.ahead_advance, List.take_append_drop]

theorem flatten_sources_of_accepted (hv : s.reported = .accepted) (h : s.run.verdict = .accepted) :
    s.sources.flatten = s.place.ahead := by
  rcases (steps_halt hv).2 with ⟨he, -⟩ | ⟨-, f, -, hr⟩
  · rw [← flatten_sources hv, he, List.append_nil]
  · rw [h] at hr
    cases hr

end Scan

/-- **Lexemes take the characters that spell them**, so that each step goes on, a run takes no more
steps than there are characters, and a text that is accepted is what its lexemes take. -/
theorem recognize_consumes :
    (∀ (p : Place) (l : Lexeme), recognize p = .ok (some l) →
        1 ≤ l.width ∧ l.width ≤ p.ahead.length ∧ Spells l.token (p.slice 0 l.width) ∧
          recognize (.start (p.slice 0 l.width)) = .ok (some l.alone)) ∧
      (∀ (s s' : Scan) (a : Acceptance), s.step = .ok a s' →
        s.place.column < s'.place.column ∧ s'.place.column ≤ s.place.size) ∧
      ∀ t : Text, (Scan.start t).runWithin t.length = some (Scan.start t).run ∧
        (check t = .accepted → (Scan.start t).sources.flatten = t) := by
  refine ⟨fun p l h => ?_, fun s s' a => Scan.column_lt_of_step, fun t => ?_⟩
  · have hr := recognize_eq_ok_iff.mp h
    exact ⟨width_pos hr, width_le_length hr, recognize_slice h⟩
  · exact ⟨Scan.runWithin_eq (Nat.le_refl _), Scan.flatten_sources_of_accepted rfl⟩

/-- A word operator read alone, and the lexemes of an expression with a path in it. -/
theorem recognize_consumes_word :
    let p := (Place.start "1 or f(./a)".toList).advance 1
    let s := (Scan.start "1 or f(./a)".toList).accept ⟨.number 1, 1⟩
    recognize p = .ok (some ⟨.operator .or, 4⟩) ∧
      recognize (.start (p.slice 0 4)) = .ok (some ⟨.blank, 1⟩) ∧
      (∃ a s', s.step = .ok a s' ∧ 1 < s'.place.column ∧ s'.place.column ≤ 11) ∧
      check "1 or f(./a)".toList = .accepted ∧
      (Scan.start "1 or f(./a)".toList).sources.flatten = "1 or f(./a)".toList := by
  intro p s
  have hp : recognize p = .ok (some ⟨.operator .or, 4⟩) := by decide +kernel
  have hs : s.step = .ok ⟨1, ⟨.operator .or, 4⟩, .afterOperator⟩
      (s.accept ⟨.operator .or, 4⟩) := rfl
  have ht : check "1 or f(./a)".toList = .accepted := by decide +kernel
  obtain ⟨hl, hc, hr⟩ := recognize_consumes
  obtain ⟨-, -, -, ha⟩ := hl p _ hp
  exact ⟨hp, ha, ⟨_, _, hs, hc _ _ _ hs⟩, ht, (hr _).2 ht⟩

end RuleCheck
