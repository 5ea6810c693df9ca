import RuleCheck.Proofs.Command.Outcome

/-!
# Proofs — Command — arguments and lines of a file

Expressions that are lines as they stand, and none of which would be skipped, can be given as
arguments or on the lines of a file.  **The run is the same** (`run_file_eq_run_check`): the reports
are, and so are the output and the exit code under the same options.
-/

namespace RuleCheck

/-- An expression that can stand on a line of a text of rules. -/
structure IsRule (e : Text) : Prop where
  line : e.IsLine
  kept : isSkipped e = false

theorem IsRule.ne_nil {e : Text} (h : IsRule e) : e ≠ [] := by
  rintro rfl
  cases h.kept

/-- Rules on lines are reported on as in a list. -/
theorem Report.ofText_intercalate {es : List Text} {ending : Text} (ne : es ≠ [])
    (h : ∀ e ∈ es, IsRule e) (he : ending = [] ∨ ending = ['\n']) :
    ofText (['\n'].intercalate es ++ ending) = ofExpressions es := by
  have hl : Text.lines (['\n'].intercalate es ++ ending) = es :=
    Text.lines_intercalate ne (fun e hm => ⟨(h e hm).line, (h e hm).ne_nil⟩) he
  rw [ofText_eq_ofExpressions, hl]
  rw [hl]
  exact fun e hm => (h e hm).kept

namespace Command

/-- **Arguments and lines of a file are checked alike**, wherever the file's path stands among its
arguments, so that what a run leaves behind is the same. -/
theorem run_file_eq_run_check {es : List Text} {ending : Text} (ne : es ≠ [])
    (h : ∀ e ∈ es, IsRule e) (he : ending = [] ∨ ending = ['\n']) :
    let t := ['\n'].intercalate es ++ ending
    Report.ofText t = Report.ofExpressions es ∧
      ∀ read opts path, read path = .ok t.utf8Encode → (∀ a ∈ opts, a ∈ optionNames) →
        ((Options.named opts).pretty → (Options.named opts).json) →
          let outcome := run read ("check".toList :: (opts ++ "--".toList :: es))
          outcome = .ofReports (.named opts) (Report.ofExpressions es) ∧
            run read ("file".toList :: (opts ++ ["--".toList, path])) = outcome ∧
            ∀ as, Arguments.ofList as = .ok ⟨.named opts, [path]⟩ →
              run read ("file".toList :: as) = outcome := by
  intro t
  have ht : Report.ofText t = Report.ofExpressions es := Report.ofText_intercalate ne h he
  refine ⟨ht, fun read opts path hr ho hp => ?_⟩
  have hc : run read ("check".toList :: (opts ++ "--".toList :: es)) =
      .ofReports (.named opts) (Report.ofExpressions es) :=
    run_of_reports (.check (Arguments.ofList_options ho hp ne))
  have hf : ∀ as, Arguments.ofList as = .ok ⟨.named opts, [path]⟩ →
      run read ("file".toList :: as) = .ofReports (.named opts) (Report.ofExpressions es) := by
    intro as ha
    rw [run_of_reports (.file ha (textAt_of_read hr)), ht]
  exact ⟨hc, (hf _ (Arguments.ofList_options ho hp (List.cons_ne_nil path []))).trans hc.symm,
    fun as ha => (hf as ha).trans hc.symm⟩

/-- Rules with blanks around them, and a carriage return in one. -/
theorem run_file_eq_run_check_pretty :
    let es := [" 1 == 2\t".toList, "f(\r$A".toList]
    let opts := ["--pretty".toList, "--quiet".toList, "--json".toList]
    let read : Text → Except ReadFailure ByteArray := fun _ =>
      .ok (['\n'].intercalate es ++ ['\n']).utf8Encode
    (∀ e ∈ es, IsRule e) ∧ (∀ a ∈ opts, a ∈ optionNames) ∧
      run read ("file".toList :: (opts ++ ["--".toList, "rules".toList])) =
        run read ("check".toList :: (opts ++ "--".toList :: es)) := by
  intro es opts read
  have h : ∀ e ∈ es, IsRule e := by
    intro e he
    simp only [es, List.mem_cons, List.not_mem_nil, or_false] at he
    rcases he with rfl | rfl <;> exact ⟨⟨by decide, by decide⟩, by decide⟩
  have ho : ∀ a ∈ opts, a ∈ optionNames := by decide
  obtain ⟨-, hr⟩ := run_file_eq_run_check (by decide) h (.inr rfl)
  obtain ⟨-, hf, -⟩ := hr read opts "rules".toList rfl ho (by decide)
  exact ⟨h, ho, hf⟩

end Command

end RuleCheck
