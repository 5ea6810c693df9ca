import RuleCheck.Command.Basic
import RuleCheck.Proofs.Command.Options
import RuleCheck.Proofs.Report

/-!
# Proofs — Command — what a run leaves behind

A run either reports (`Reports`) or fails (`Fails`), and never both: the errors come in an order,
the number of arguments first, then the options, the command, the number of paths and the file
(`reports_or_fails`, `run_of_reports`, `run_of_fails`).

**The exit code is zero only if there was nothing to complain of** (`exit_eq_zero_iff`).  Options
that are put in leave the reports as they are (`Reports.insert`), and change what is shown of them
(`shown_merge`).
-/

namespace RuleCheck.Command

/-- A text is what its bytes in UTF-8 encode. -/
theorem decodeText_utf8Encode (t : Text) : decodeText t.utf8Encode = .ok t := by
  have hv : t.utf8Encode.IsValidUTF8 := .intro t rfl
  have hs : String.fromUTF8? t.utf8Encode = some (String.ofList t) := dif_pos hv
  rw [decodeText, hs]
  exact congrArg Except.ok String.toList_ofList

/-- The text of the file at a path. -/
def textAt (read : Text → Except ReadFailure ByteArray) (path : Text) : Except ReadFailure Text :=
  read path >>= decodeText

/-- A file in UTF-8 is read as the text that it holds. -/
theorem textAt_of_read {read : Text → Except ReadFailure ByteArray} {path t : Text}
    (h : read path = .ok t.utf8Encode) : textAt read path = .ok t := by
  rw [textAt, h]
  exact decodeText_utf8Encode t

theorem bind_reportsOfBytes (read : Text → Except ReadFailure ByteArray) (path : Text) :
    read path >>= reportsOfBytes = (textAt read path).map Report.ofText := by
  rw [textAt]
  cases read path <;> rfl

variable {read : Text → Except ReadFailure ByteArray} {args as : List Text} {o : Options}
  {rs : List Report} {message : Text}

/-- The reports that a run with the arguments makes, and the options for showing them. -/
inductive Reports (read : Text → Except ReadFailure ByteArray) :
    List Text → Options → List Report → Prop where
  | check {as : List Text} {a : Arguments} (h : Arguments.ofList as = .ok a) :
      Reports read ("check".toList :: as) a.options (Report.ofExpressions a.inputs)
  | file {as : List Text} {o : Options} {path t : Text}
      (h : Arguments.ofList as = .ok ⟨o, [path]⟩) (ht : textAt read path = .ok t) :
      Reports read ("file".toList :: as) o (Report.ofText t)

/-- What a run with the arguments complains of. -/
inductive Fails (read : Text → Except ReadFailure ByteArray) : List Text → Text → Prop where
  | few {args : List Text} (h : args.length < 2) : Fails read args "not enough arguments".toList
  | arguments {command : Text} {as : List Text} {e : UsageError} (ne : as ≠ [])
      (h : Arguments.ofList as = .error e) : Fails read (command :: as) e.message
  | command {command : Text} {as : List Text} {a : Arguments} (h : Arguments.ofList as = .ok a)
      (hc : command ≠ "check".toList) (hf : command ≠ "file".toList) :
      Fails read (command :: as) ("unknown command '".toList ++ command ++ ['\''])
  | paths {as : List Text} {a : Arguments} (h : Arguments.ofList as = .ok a)
      (hp : ∀ path, a.inputs ≠ [path]) :
      Fails read ("file".toList :: as) "file requires exactly one input path".toList
  | unreadable {as : List Text} {o : Options} {path : Text} {e : ReadFailure}
      (h : Arguments.ofList as = .ok ⟨o, [path]⟩) (ht : textAt read path = .error e) :
      Fails read ("file".toList :: as) (path ++ ": ".toList ++ e.message)

/-! ### Parsing -/

theorem ne_nil_of_ofList {a : Arguments} (h : Arguments.ofList as = .ok a) : as ≠ [] := by
  rintro rfl
  cases h

theorem parse_of_few (h : args.length < 2) : parse args = .error .fewArguments := by
  match args with
  | [] | [_] => rfl
  | _ :: _ :: _ => exact absurd h (by simp)

theorem parse_cons (command : Text) (ne : as ≠ []) :
    parse (command :: as) =
      match Arguments.ofList as with
      | .error e => .error e
      | .ok a    => (Request.of command a.inputs).map fun r => (r, a.options) := by
  obtain ⟨b, bs, rfl⟩ := List.exists_cons_of_ne_nil ne
  rw [parse]
  cases Arguments.ofList (b :: bs) with
  | error e => rfl
  | ok a => exact bind_pure_comp (fun r => (r, a.options)) (Request.of command a.inputs)

theorem parse_of_ofList (command : Text) {a : Arguments} (h : Arguments.ofList as = .ok a) :
    parse (command :: as) = (Request.of command a.inputs).map fun r => (r, a.options) := by
  rw [parse_cons command (ne_nil_of_ofList h), h]

theorem Request.of_file_of_ne {inputs : List Text} (hp : ∀ path, inputs ≠ [path]) :
    Request.of "file".toList inputs = .error .notOnePath := by
  match inputs with
  | [] | _ :: _ :: _ => rfl
  | [path] => exact absurd rfl (hp path)

/-! ### Running -/

theorem run_of_parse_error {e : UsageError} (h : parse args = .error e) :
    run read args = .ofError e.message := by
  rw [run, h]

theorem run_of_parse_check {inputs : List Text} (h : parse args = .ok (.check inputs, o)) :
    run read args = .ofReports o (Report.ofExpressions inputs) := by
  rw [run, h]

theorem run_of_parse_file {path : Text} (h : parse args = .ok (.file path, o)) :
    run read args =
      match textAt read path with
      | .ok t    => .ofReports o (Report.ofText t)
      | .error e => .ofError (path ++ ": ".toList ++ e.message) := by
  rw [run, h]
  simp only [bind_reportsOfBytes]
  cases textAt read path <;> rfl

theorem run_of_reports (h : Reports read args o rs) : run read args = .ofReports o rs := by
  cases h with
  | check h => exact run_of_parse_check (parse_of_ofList _ h)
  | file h ht => rw [run_of_parse_file (parse_of_ofList _ h), ht]

theorem run_of_fails (h : Fails read args message) : run read args = .ofError message := by
  cases h with
  | few h => exact run_of_parse_error (parse_of_few h)
  | @arguments command as e ne h =>
      refine run_of_parse_error ?_
      rw [parse_cons command ne, h]
  | @command command as a h hc hf =>
      refine run_of_parse_error (e := .unknownCommand command) ?_
      rw [parse_of_ofList command h, Request.of.eq_def, if_neg hc, if_neg hf]
      rfl
  | paths h hp =>
      refine run_of_parse_error (e := .notOnePath) ?_
      rw [parse_of_ofList _ h, Request.of_file_of_ne hp]
      rfl
  | unreadable h ht => rw [run_of_parse_file (parse_of_ofList _ h), ht]

/-- **A run reports or fails.** -/
theorem reports_or_fails (read : Text → Except ReadFailure ByteArray) (args : List Text) :
    (∃ o rs, Reports read args o rs) ∨ ∃ message, Fails read args message := by
  match args with
  | [] | [_] => exact .inr ⟨_, .few (by simp)⟩
  | command :: b :: bs =>
      cases ha : Arguments.ofList (b :: bs) with
      | error e => exact .inr ⟨_, .arguments (List.cons_ne_nil b bs) ha⟩
      | ok a =>
          by_cases hc : command = "check".toList
          · subst hc
            exact .inl ⟨_, _, .check ha⟩
          by_cases hf : command = "file".toList
          · subst hf
            by_cases hp : ∃ path, a.inputs = [path]
            · obtain ⟨o, inputs⟩ := a
              obtain ⟨path, rfl⟩ := hp
              cases ht : textAt read path with
              | error e => exact .inr ⟨_, .unreadable ha ht⟩
              | ok t => exact .inl ⟨_, _, .file ha ht⟩
            · exact .inr ⟨_, .paths ha (not_exists.mp hp)⟩
          · exact .inr ⟨_, .command ha hc hf⟩

/-! ### The exit code -/

theorem exit_eq_zero_of_reports (h : Reports read args o rs) :
    (run read args).exit = 0 ↔ rs.all Report.valid := by
  rw [run_of_reports h, Outcome.ofReports]
  split <;> simp [*]

/-- The exit code is zero if everything that the arguments name can be read and is accepted. -/
theorem exit_eq_zero_iff (read : Text → Except ReadFailure ByteArray) (args : List Text) :
    (run read args).exit = 0 ↔
      ∃ command as a, args = command :: as ∧ as ≠ [] ∧ Arguments.ofList as = .ok a ∧
        (command = "check".toList ∧ (∀ e ∈ a.inputs, check e = .accepted) ∨
          command = "file".toList ∧ ∃ path t, a.inputs = [path] ∧ textAt read path = .ok t ∧
            ∀ l ∈ t.lines, isSkipped l = false → check l = .accepted) := by
  constructor
  · intro h
    rcases reports_or_fails read args with ⟨o, rs, hr⟩ | ⟨message, hf⟩
    · have hv := (exit_eq_zero_of_reports hr).mp h
      cases hr with
      | @check as a ha =>
          exact ⟨_, as, a, rfl, ne_nil_of_ofList ha, ha,
            .inl ⟨rfl, Report.all_valid_ofExpressions.mp hv⟩⟩
      | @file as o path t ha ht =>
          exact ⟨_, as, _, rfl, ne_nil_of_ofList ha, ha,
            .inr ⟨rfl, path, t, rfl, ht, Report.all_valid_ofText.mp hv⟩⟩
    · rw [run_of_fails hf] at h
      cases h
  · rintro ⟨command, as, a, rfl, -, ha, ⟨rfl, hv⟩ | ⟨rfl, path, t, hp, ht, hv⟩⟩
    · exact (exit_eq_zero_of_reports (.check ha)).mpr (Report.all_valid_ofExpressions.mpr hv)
    · obtain ⟨o, inputs⟩ := a
      obtain rfl : inputs = [path] := hp
      exact (exit_eq_zero_of_reports (.file ha ht)).mpr (Report.all_valid_ofText.mpr hv)

/-- A run reports only on expressions that it has checked. -/
theorem Reports.eq_of (h : Reports read args o rs) : ∀ r ∈ rs, r = .of r.line r.expression := by
  intro r hr
  cases h with
  | check h =>
      obtain ⟨n, e, -, rfl⟩ := Report.mem_ofExpressions.mp hr
      rfl
  | file h ht =>
      obtain ⟨n, l, -, -, rfl⟩ := Report.mem_ofText.mp hr
      rfl

/-- Options put in before the first `--` leave the reports as they are. -/
theorem Reports.insert {command : Text} {as bs cs added : List Text}
    (h : Reports read (command :: (as ++ cs)) o rs) (hd : "--".toList ∉ as)
    (hi : Arguments.Insertion added as bs)
    (hp : (Options.named added).pretty → (Options.named added).json) :
    Reports read (command :: (bs ++ cs)) ((Options.named added).merge o) rs := by
  cases h with
  | check h => exact .check (Arguments.ofList_insert h hd hi hp)
  | file h ht => exact .file (Arguments.ofList_insert h hd hi hp) ht

/-! ### What is shown -/

theorem shown_of_not_quiet (o : Options) (rs : List Report) :
    shown { o with quiet := false } rs = rs :=
  List.filter_eq_self.mpr fun _ _ => rfl

/-- The output is that of the reports shown. -/
theorem render_shown (o : Options) (rs : List Report) :
    render { o with quiet := false } (shown o rs) = render o rs := by
  simp only [render, shown_of_not_quiet]

theorem shown_merge (p o : Options) (rs : List Report) :
    shown (p.merge o) rs = (shown o rs).filter fun r => !(p.quiet && r.valid) := by
  rw [shown, shown, List.filter_filter]
  refine List.filter_congr fun r _ => ?_
  simp only [Options.merge]
  cases p.quiet <;> cases o.quiet <;> cases r.valid <;> rfl

theorem Reports.valid_eq (h : Reports read args o rs) {r : Report} (hr : r ∈ rs) :
    r.valid = decide (RuleCheck.check r.expression = .accepted) := by
  rw [h.eq_of r hr]
  exact Bool.eq_iff_iff.mpr (Report.valid_of.trans decide_eq_true_iff.symm)

/-- A report is shown, among others, if its expression is rejected. -/
theorem shown_merge_of_reports (h : Reports read args o rs) (p : Options) :
    shown (p.merge o) rs =
      (shown o rs).filter fun r => !(p.quiet && decide (check r.expression = .accepted)) := by
  rw [shown_merge]
  exact List.filter_congr fun r hr => by rw [h.valid_eq (List.mem_filter.mp hr).1]

end RuleCheck.Command
