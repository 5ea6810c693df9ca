import RuleCheck.Proofs.Command.Plain
import RuleCheck.Proofs.Json.Report

/-!
# Proofs — Command — exit code and options

**The exit code is zero only if there was nothing to complain of**, and options change what is shown
and how, never the exit code (`exit_status`).

What is shown is read off the output, whether it is plain or JSON (`tells?`): each report that is
shown tells its number and whether its expression is accepted.  So what `--quiet` leaves out of the
output is what the output without it tells to be accepted.
-/

namespace RuleCheck.Command

variable {read : Text → Except ReadFailure ByteArray} {args : List Text} {o : Options}
  {rs : List Report}

/-- The numbers and the verdicts that an output in the format tells. -/
def tells? (json : Bool) (out : Text) : Option (List (Nat × Bool)) :=
  if json then
    (Json.parse? out >>= Report.entries?).map fun rs => rs.map fun r => (r.line, r.valid)
  else some ((out.splitOn '\n').filterMap told?)

theorem isBlank_newline : Json.IsBlank ['\n'] := by
  intro c hc
  obtain rfl := List.mem_singleton.mp hc
  decide

/-- A value is read back from the line that it is printed on. -/
theorem parse?_line {v : Json} {t : Text} (h : Json.Writes (.value v) t) :
    Json.parse? (line t) = some v :=
  h.parse?_eq Json.isBlank_nil isBlank_newline

/-- **The output tells the reports shown**, in either format. -/
theorem tells?_stdout (h : Reports read args o rs) :
    tells? o.json (run read args).stdout = some ((shown o rs).map fun r => (r.line, r.valid)) := by
  cases hj : o.json with
  | false => exact congrArg some (filterMap_told?_stdout h hj)
  | true =>
      have hp : Json.parse? (run read args).stdout = some (Report.listToJson (shown o rs)) := by
        rw [run_of_reports h, Outcome.ofReports, render, if_pos hj]
        cases hpretty : o.pretty with
        | false => exact parse?_line (Json.writes_compact _)
        | true => exact parse?_line (Json.writes_pretty _)
      rw [tells?, if_pos rfl, hp, Option.bind_eq_bind, Option.bind_some, Report.entries?_listToJson]
      rfl

/-- What more options leave out of what is shown, its entries in the output tell. -/
theorem tells?_stdout_merge {args' : List Text} (h : Reports read args o rs) (p : Options)
    (h' : Reports read args' (p.merge o) rs) :
    tells? (p.merge o).json (run read args').stdout =
      (tells? o.json (run read args).stdout).map fun told =>
        told.filter fun (_, valid) => !(p.quiet && valid) := by
  rw [tells?_stdout h, tells?_stdout h', shown_merge, Option.map_some, List.filter_map]
  rfl

/-- **The exit code is zero** if there are a command and arguments for it, the command is one of the
two and its input can be read, and every expression is accepted.  An error is told on the standard
error with the usage behind it, and the standard output stays empty.  Options put in before the
first `--` leave the exit code as it is, and `--quiet` leaves out of what is shown the reports on
expressions that are accepted.  Either output tells the number of each report that it shows, and
whether its expression is accepted. -/
theorem exit_status (read : Text → Except ReadFailure ByteArray) (args : List Text) :
    ((run read args).exit = 0 ↔
      ∃ command as a, args = command :: as ∧ as ≠ [] ∧ Arguments.ofList as = .ok a ∧
        (command = "check".toList ∧ (∀ e ∈ a.inputs, check e = .accepted) ∨
          command = "file".toList ∧ ∃ path t, a.inputs = [path] ∧ textAt read path = .ok t ∧
            ∀ l ∈ t.lines, isSkipped l = false → check l = .accepted)) ∧
      ((∃ o rs, Reports read args o rs) ∨ ∃ message, Fails read args message) ∧
      (∀ message, Fails read args message →
        run read args = ⟨1, [], line message ++ usage⟩) ∧
      ∀ o rs command as bs cs added, Reports read args o rs → args = command :: (as ++ cs) →
        "--".toList ∉ as → Arguments.Insertion added as bs →
        ((Options.named added).pretty → (Options.named added).json) →
          let o' := (Options.named added).merge o
          let run' := run read (command :: (bs ++ cs))
          run'.exit = (run read args).exit ∧
            (run read args).stdout = render { o with quiet := false } (shown o rs) ∧
            run'.stdout = render { o' with quiet := false }
              ((shown o rs).filter fun r =>
                !((Options.named added).quiet && decide (check r.expression = .accepted))) ∧
            tells? o.json (run read args).stdout =
              some ((shown o rs).map fun r => (r.line, decide (check r.expression = .accepted))) ∧
            tells? o'.json run'.stdout = (tells? o.json (run read args).stdout).map fun told =>
              told.filter fun (_, valid) => !((Options.named added).quiet && valid) := by
  refine ⟨exit_eq_zero_iff read args, reports_or_fails read args, fun _ => run_of_fails, ?_⟩
  rintro o rs command as bs cs added h rfl hd hi hp
  have h' := h.insert hd hi hp
  refine ⟨?_, ?_, ?_, ?_, tells?_stdout_merge h _ h'⟩
  · rw [run_of_reports h, run_of_reports h']
    rfl
  · rw [run_of_reports h, render_shown]
    rfl
  · rw [run_of_reports h', ← shown_merge_of_reports h, render_shown]
    rfl
  · rw [tells?_stdout h]
    refine congrArg some (List.map_congr_left fun r hr => ?_)
    rw [h.valid_eq (List.mem_filter.mp hr).1]

/-- A file with an expression that is accepted, a line that is skipped and an expression that is
rejected, shown with `--quiet` and without. -/
theorem exit_status_quiet :
    let read : Text → Except ReadFailure ByteArray := fun _ =>
      .ok "1\n# no\n2 3".toList.utf8Encode
    let good : Report := .of 1 ['1']
    let bad : Report := .of 3 "2 3".toList
    let args := ["file".toList, "rules".toList]
    let quiet := ["file".toList, "--quiet".toList, "rules".toList]
    Reports read args ⟨false, false, false⟩ [good, bad] ∧
      Arguments.Insertion ["--quiet".toList] ["rules".toList] ["--quiet".toList, "rules".toList] ∧
      (run read args).exit ≠ 0 ∧ (run read quiet).exit = (run read args).exit ∧
      (run read quiet).stdout = render ⟨false, false, false⟩ [bad] ∧
      tells? false (run read args).stdout = some [(1, true), (3, false)] ∧
      tells? false (run read quiet).stdout = some [(3, false)] := by
  intro read good bad args quiet
  have hrs : Report.ofText "1\n# no\n2 3".toList = [good, bad] := by decide +kernel
  have ha : Arguments.ofList ["rules".toList] = .ok ⟨⟨false, false, false⟩, ["rules".toList]⟩ := rfl
  have hr : Reports read args ⟨false, false, false⟩ [good, bad] :=
    hrs ▸ .file ha (textAt_of_read rfl)
  have hi : Arguments.Insertion ["--quiet".toList] ["rules".toList]
      ["--quiet".toList, "rules".toList] := ⟨by decide, by decide, by decide⟩
  obtain ⟨hz, -, -, h⟩ := exit_status read args
  obtain ⟨he, -, hs, ht, htq⟩ := h _ _ _ ["rules".toList] _ [] _ hr rfl (by decide) hi (by decide)
  have ht : tells? false (run read args).stdout = some [(1, true), (3, false)] :=
    ht.trans (by decide +kernel)
  rw [ht] at htq
  refine ⟨hr, hi, ?_, he, hs.trans ?_, ht, htq⟩
  · rw [ne_eq, exit_eq_zero_of_reports hr]
    decide +kernel
  · decide +kernel

end RuleCheck.Command
