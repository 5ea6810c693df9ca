import RuleCheck.Grammar.Walk
import RuleCheck.Proofs.Scan.Steps

/-!
# Proofs — Scan — one pass and two

A scan reads, admits and counts in one pass.  `judge` takes the lexing of the whole text first and
walks along it afterwards, with nothing in mind but the last two kinds that were no blanks.

**Both give the same verdict** (`check_eq_judge`).  The scan is followed step by step: what may come
at a scan is settled by the last two kinds (`Slots.after_afterPair`), so the run from any scan ends
in the verdict of the two passes on what lies ahead (`Scan.verdict_run_eq_judgeFrom`).
-/

namespace RuleCheck

/-! ### The last two kinds -/

theorem Slots.afterPair_eq (before : Option Kind) {k : Kind} (hk : k ≠ .leftParen) :
    Slots.afterPair before (some k) = start.after k := by
  cases k <;> first | rfl | contradiction

theorem Slots.call_mem_afterPair (before last : Option Kind) :
    .call ∈ Slots.afterPair before last ↔ last.any Kind.isCallable := by
  cases last with
  | none => exact ⟨nofun, nofun⟩
  | some k =>
      by_cases hk : k = .leftParen
      · subst hk
        rw [afterPair]
        split <;> exact ⟨nofun, nofun⟩
      · rw [afterPair_eq before hk]
        cases k with
        | leftParen => contradiction
        | _ => exact Iff.rfl

/-- **What may come is settled by the last two kinds.** -/
theorem Slots.after_afterPair (before last : Option Kind) {k : Kind} (hb : k ≠ .blank) :
    (Slots.afterPair before last).after k = Slots.afterPair last (some k) := by
  by_cases hk : k = .leftParen
  · subst hk
    rw [after_leftParen, afterPair]
    by_cases hc : last.any Kind.isCallable
    · rw [if_pos ((call_mem_afterPair before last).mpr hc), if_pos hc]
    · rw [if_neg (mt (call_mem_afterPair before last).mp hc), if_neg hc]
  · rw [after_eq _ hk hb, afterPair_eq last hk]

/-! ### The two passes from the middle of a text -/

/-- The kinds of a row that are no blanks, each with its column; the row begins at `column`. -/
def placedKinds (column : Nat) (r : List Lexeme) : List (Nat × Kind) :=
  ((placed column r).filter (·.2.kind ≠ .blank)).map fun (c, l) => (c, l.kind)

theorem placedKinds_cons_blank (column : Nat) {l : Lexeme} (r : List Lexeme) (h : l.kind = .blank) :
    placedKinds column (l :: r) = placedKinds (column + l.width) r := by
  simp [placedKinds, placed, h]

theorem placedKinds_cons (column : Nat) {l : Lexeme} (r : List Lexeme) (h : l.kind ≠ .blank) :
    placedKinds column (l :: r) = (column, l.kind) :: placedKinds (column + l.width) r := by
  simp [placedKinds, placed, h]

/-- The verdict of the two passes on a text that begins at `column`, behind kinds of which the last
two are given and which leave the nesting `n`. -/
def judgeFrom (column : Nat) (before last : Option Kind) (n : Nesting) (t : Text) : Verdict :=
  let x := lexing t
  match firstMisplaced before last (placedKinds column x.lexemes) with
  | some (c, k) => .rejected ⟨c, .unexpected k⟩
  | none =>
      if x.rest ≠ [] then .rejected (unreadable (column + t.length - x.rest.length) x.rest)
      else if !((kinds x.lexemes).foldl Nesting.after n).balanced then
        .rejected ⟨column + t.length, .unbalanced⟩
      else if ((kinds x.lexemes).getLast?.or last).any Kind.mayEnd then .accepted
      else .rejected ⟨column + t.length, .incomplete⟩

theorem judge_eq_judgeFrom (t : Text) : judge t = judgeFrom 0 none none .start t := by
  rw [judgeFrom, Nat.zero_add]
  simp only [Option.or_none]
  rfl

section
variable {column : Nat} {before last : Option Kind} {n : Nesting} {t : Text} {l : Lexeme}

theorem judgeFrom_nil :
    judgeFrom column before last n [] =
      if !n.balanced then .rejected ⟨column, .unbalanced⟩
      else if last.any Kind.mayEnd then .accepted
      else .rejected ⟨column, .incomplete⟩ := by
  have hx : lexing [] = ⟨[], []⟩ := lexing_of_ne (by simp)
  simp [judgeFrom, hx, placedKinds, placed, firstMisplaced]

theorem judgeFrom_of_unreadable (ht : t ≠ []) (h : ∀ l, read t ≠ .lexeme l) :
    judgeFrom column before last n t = .rejected (unreadable column t) := by
  simp [judgeFrom, lexing_of_ne h, placedKinds, placed, firstMisplaced, ht]

theorem judgeFrom_of_misplaced (h : read t = .lexeme l)
    (ha : (Slots.afterPair before last).admits l.kind = false) :
    judgeFrom column before last n t = .rejected ⟨column, .unexpected l.kind⟩ := by
  have hb : l.kind ≠ .blank := by
    intro hb
    rw [hb, Slots.admits_blank] at ha
    cases ha
  simp [judgeFrom, lexing_of_lexeme h, Lexing.cons, placedKinds_cons column _ hb, firstMisplaced,
    ha]

/-- The end of the text and the place where its lexing stops, from one lexeme on. -/
theorem column_eqs (h : read t = .lexeme l) :
    column + l.width + (t.drop l.width).length = column + t.length := by
  have := width_le_length h
  simp only [List.length_drop]
  omega

theorem judgeFrom_of_blank (h : read t = .lexeme l) (hb : l.kind = .blank) :
    judgeFrom column before last n t =
      judgeFrom (column + l.width) before last n (t.drop l.width) := by
  simp only [judgeFrom, lexing_of_lexeme h, Lexing.cons, placedKinds_cons_blank column _ hb,
    kinds_cons_blank hb, column_eqs h]

theorem judgeFrom_of_admitted (h : read t = .lexeme l) (hb : l.kind ≠ .blank)
    (ha : (Slots.afterPair before last).admits l.kind) :
    judgeFrom column before last n t =
      judgeFrom (column + l.width) last (some l.kind) (n.after l.kind) (t.drop l.width) := by
  have hl : ((l.kind :: kinds (lexing (t.drop l.width)).lexemes).getLast?.or last) =
      (kinds (lexing (t.drop l.width)).lexemes).getLast?.or (some l.kind) := by
    rw [List.getLast?_cons]
    cases (kinds (lexing (t.drop l.width)).lexemes).getLast? <;> rfl
  simp only [judgeFrom, lexing_of_lexeme h, Lexing.cons, placedKinds_cons column _ hb,
    kinds_cons hb, column_eqs h, firstMisplaced, ha, if_true, List.foldl_cons, hl]

end

/-! ### The scan followed by the two passes -/

namespace Scan

variable {s : Scan} {before : Option Kind}

theorem finish_eq_judgeFrom (he : s.place.ahead = []) :
    s.finish = judgeFrom s.place.column before s.progress.last s.progress.nesting [] := by
  have hsize : s.place.size = s.place.column := by
    rw [Place.size_eq, he]
    rfl
  rw [judgeFrom_nil, finish, Progress.missing?, hsize]
  by_cases hbal : s.progress.nesting.balanced
  · by_cases hend : s.progress.last.any Kind.mayEnd
    · simp [hbal, hend]
    · simp [hbal, hend]
  · simp [hbal]

/-- Where a step fails the first pass stops, or the walk does at the lexeme read. -/
theorem judgeFrom_of_next {f : Fault} (he : s.place.ahead ≠ []) (hf : s.next = .error f)
    (hs : s.progress.slots = Slots.afterPair before s.progress.last) :
    judgeFrom s.place.column before s.progress.last s.progress.nesting s.place.ahead =
      .rejected f := by
  rw [next] at hf
  split at hf
  · rename_i hr
    cases hf
    rw [judgeFrom_of_unreadable he (by simp [hr]), unreadable, hr]
  · rename_i o q hr
    cases hf
    rw [judgeFrom_of_unreadable he (by simp [hr]), unreadable, hr]
  · rename_i l hr
    split at hf <;> cases hf
    rename_i ha
    rw [Progress.admits, hs] at ha
    exact judgeFrom_of_misplaced hr (by simpa using ha)

/-- The run from a scan at which the last two kinds say what may come ends in the verdict of the
two passes on what lies ahead. -/
theorem verdict_run_eq_judgeFrom (hv : s.reported = .accepted) (before : Option Kind)
    (hs : s.progress.slots = Slots.afterPair before s.progress.last) :
    s.run.verdict =
      judgeFrom s.place.column before s.progress.last s.progress.nesting s.place.ahead := by
  induction s, hv using run_induction generalizing before with
  | stop s hv he =>
      rw [run_of_end hv he, he]
      exact finish_eq_judgeFrom he
  | fail s hv f he hf =>
      rw [run_of_error hv he hf]
      exact (judgeFrom_of_next he hf hs).symm
  | goOn s hv l hl ih =>
      rw [run_of_ok hv hl]
      have hr := read_of_next hl
      have ha := admits_of_next hl
      by_cases hb : l.kind = .blank
      · -- the two kinds in mind stay as they are
        have hp : (s.accept l).progress = s.progress := by simp [hb]
        have := ih before (hp ▸ hs)
        rw [hp, column_accept hr] at this
        rw [judgeFrom_of_blank hr hb]
        exact this
      · have hp : (s.accept l).progress =
            ⟨s.progress.slots.after l.kind, s.progress.nesting.after l.kind, some l.kind⟩ := by
          simp [Progress.after_of_ne_blank _ hb]
        have := ih s.progress.last (by rw [hp, hs, Slots.after_afterPair _ _ hb])
        rw [hp, column_accept hr] at this
        rw [judgeFrom_of_admitted hr hb (hs ▸ ha)]
        exact this

end Scan

/-- **One pass and two give the same verdict.** -/
theorem check_eq_judge (t : Text) : check t = judge t := by
  rw [judge_eq_judgeFrom]
  exact Scan.verdict_run_eq_judgeFrom (s := .start t) rfl none rfl

end RuleCheck
