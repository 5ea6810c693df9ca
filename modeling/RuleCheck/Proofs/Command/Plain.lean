import RuleCheck.Proofs.Command.Outcome
import RuleCheck.Proofs.Scan.Message
import RuleCheck.Proofs.Text.Span

/-!
# Proofs — Command — plain output

Plain output is the reports shown, one behind the other, each with the end of a line behind it.
Only the sequence of a bad escape can break a report into several lines, and then **the output has
more lines than reports** (`plain_output`, `plain_output_broken`): never for the lines of a file,
which hold no line feed, nor for arguments that hold none.

Whatever is in it, the output tells the number and the verdict of each report (`told?`): the lines
that a sequence adds have fewer than five characters, and the first line of a report has no fewer.
-/

namespace RuleCheck

theorem Report.plain_of_accepted {n : Nat} {e : Text} (h : check e = .accepted) :
    (of n e).plain = Text.decimal n ++ ": OK".toList := by
  rw [of_accepted h, plain]

theorem Report.plain_of_rejected {n : Nat} {e : Text} {f : Fault} (h : check e = .rejected f) :
    (of n e).plain = Text.decimal n ++ (": ".toList ++ f.message) := by
  rw [of_rejected h, plain]

/-- A report has a line feed only from a bad escape. -/
theorem Report.newline_mem_plain {n : Nat} {e : Text} :
    '\n' ∈ (of n e).plain ↔ ∃ c s, check e = .rejected ⟨c, .badEscape s⟩ ∧ '\n' ∈ s := by
  cases hv : check e with
  | accepted =>
      rw [plain_of_accepted hv, List.mem_append]
      refine ⟨?_, nofun⟩
      rintro (h | h)
      · exact absurd h (newline_notMem_decimal _)
      · exact absurd h (by decide)
  | rejected f =>
      obtain ⟨c, cause⟩ := f
      rw [plain_of_rejected hv, List.mem_append, List.mem_append, Fault.newline_mem_message]
      constructor
      · rintro (h | h | ⟨s, rfl, h⟩)
        · exact absurd h (newline_notMem_decimal _)
        · exact absurd h (by decide)
        · exact ⟨c, s, rfl, h⟩
      · rintro ⟨c, s, he, h⟩
        cases he
        exact .inr (.inr ⟨s, rfl, h⟩)

namespace Command

/-! ### What a line tells -/

/-- The number and the verdict that a line of plain output tells, if it is the first of a report. -/
def told? (l : Text) : Option (Nat × Bool) :=
  if l.length < 5 then none
  else
    some (Nat.ofDigitChars 10 (l.takeWhile Char.isDigit) 0,
      l.dropWhile Char.isDigit = ": OK".toList)

theorem told?_append {n : Nat} {t : Text} (ht : 4 ≤ t.length)
    (hd : ∀ c ∈ t.head?, ¬ c.isDigit) :
    told? (Text.decimal n ++ t) = some (n, decide (t = ": OK".toList)) := by
  have hdig : ∀ c ∈ Text.decimal n, c.isDigit := fun c => Text.isDigit_of_mem_decimal
  have hpos : 0 < (Text.decimal n).length := List.length_pos_iff.mpr Nat.toDigits_ne_nil
  have hlen : ¬ (Text.decimal n ++ t).length < 5 := by
    rw [List.length_append]
    omega
  rw [told?, if_neg hlen, takeWhile_append_of_stop hdig hd, dropWhile_append_of_stop hdig hd,
    Text.decimal, Nat.ofDigitChars_ten_toDigits]

theorem told?_message (n : Nat) (t : Text) :
    told? (Text.decimal n ++ (": ".toList ++ (messageHead ++ t))) = some (n, false) := by
  have hm : ": ".toList ++ messageHead =
      ':' :: ' ' :: 'p' :: 'a' :: "rse error at [column ".toList := by decide +kernel
  rw [← List.append_assoc ": ".toList, hm, told?_append]
  · exact congrArg (fun b => some (n, b)) (decide_eq_false fun h => by cases h)
  · simp only [List.cons_append, List.length_cons, List.length_append]
    exact Nat.le_add_left 4 (_ + _)
  · intro c hc
    cases hc
    decide

/-- The lines of a report tell its number and its verdict once. -/
theorem filterMap_told?_plain (n : Nat) (e : Text) :
    ((Report.of n e).plain.splitOn '\n').filterMap told? = [(n, (Report.of n e).valid)] := by
  cases hv : check e with
  | accepted =>
      have hn : '\n' ∉ (Report.of n e).plain := by
        rw [Report.newline_mem_plain]
        rintro ⟨c, s, h, -⟩
        cases hv.symm.trans h
      rw [List.splitOn_eq_singleton hn, Report.plain_of_accepted hv, List.filterMap_cons,
        told?_append (by decide) (by simp), Report.valid_of.mpr hv]
      rfl
  | rejected f =>
      obtain ⟨x, y, hm, hx, hy⟩ := exists_message_eq_append hv
      have hvalid : (Report.of n e).valid = false := by
        rw [Report.of_rejected hv]
      -- no line feed comes before the last five characters
      have hp : (Report.of n e).plain =
          (Text.decimal n ++ (": ".toList ++ (messageHead ++ x))) ++ y := by
        rw [Report.plain_of_rejected hv, hm]
        simp only [List.append_assoc]
      have hxn : '\n' ∉ Text.decimal n ++ (": ".toList ++ (messageHead ++ x)) := by
        rw [List.mem_append, List.mem_append, List.mem_append, not_or, not_or, not_or]
        exact ⟨newline_notMem_decimal n, by decide, by decide +kernel, hx⟩
      have htail : ∀ p ∈ (y.splitOn '\n').tail, told? p = none := fun p h =>
        if_pos (Nat.lt_of_lt_of_le (Text.length_lt_of_mem_tail_splitOn h) hy)
      rw [hp, Text.splitOn_append hxn, hvalid]
      cases hs : y.splitOn '\n' with
      | nil => exact absurd hs (List.splitOn_ne_nil _ _)
      | cons q qs =>
          rw [hs] at htail
          have hnone : qs.filterMap told? = [] := List.filterMap_eq_nil_iff.mpr htail
          rw [List.modifyHead_cons, List.filterMap_cons_some, hnone]
          rw [List.append_assoc, List.append_assoc, List.append_assoc]
          exact told?_message n (x ++ q)

/-! ### The output -/

variable {read : Text → Except ReadFailure ByteArray} {args : List Text} {o : Options}
  {rs : List Report}

/-- The expressions in a file hold no line feed, and those among the arguments only if an argument
does. -/
theorem Reports.newline_notMem (h : Reports read args o rs)
    (ha : args.head? = some "file".toList ∨ ∀ a ∈ args, '\n' ∉ a) :
    ∀ r ∈ rs, '\n' ∉ r.expression := by
  intro r hr
  cases h with
  | @check as a h =>
      obtain ⟨n, e, he, rfl⟩ := Report.mem_ofExpressions.mp hr
      rcases ha with ha | ha
      · exact absurd (Option.some.inj ha) (by decide)
      · have hi : e ∈ as := Arguments.inputs_subset_of_ofList h (List.fst_mem_of_mem_zipIdx he)
        exact ha e (List.mem_cons_of_mem _ hi)
  | file h ht =>
      obtain ⟨n, l, hl, -, rfl⟩ := Report.mem_ofText.mp hr
      exact Text.notMem_of_mem_lines (List.fst_mem_of_mem_zipIdx hl)

theorem Reports.eq_of_shown (h : Reports read args o rs) :
    ∀ r ∈ shown o rs, r = .of r.line r.expression :=
  fun r hr => h.eq_of r (List.mem_filter.mp hr).1

theorem stdout_eq (h : Reports read args o rs) (hj : o.json = false) :
    (run read args).stdout = ((shown o rs).map Report.plain).flatMap line := by
  rw [run_of_reports h, List.flatMap_map]
  simp only [Outcome.ofReports, render, hj]
  rfl

theorem splitOn_stdout (h : Reports read args o rs) (hj : o.json = false) :
    (run read args).stdout.splitOn '\n' =
      ((shown o rs).map Report.plain).flatMap (·.splitOn '\n') ++ [[]] := by
  rw [stdout_eq h hj]
  exact Text.splitOn_flatMap '\n' _

/-- Each report is a line if no bad escape has a line feed in its sequence. -/
theorem splitOn_stdout_eq_iff (h : Reports read args o rs) (hj : o.json = false) :
    (run read args).stdout.splitOn '\n' = (shown o rs).map Report.plain ++ [[]] ↔
      ∀ r ∈ shown o rs, ∀ c s, check r.expression = .rejected ⟨c, .badEscape s⟩ → '\n' ∉ s := by
  rw [splitOn_stdout h hj, List.append_left_inj, Text.flatMap_splitOn_eq_self_iff,
    List.forall_mem_map]
  refine forall₂_congr fun r hr => ?_
  rw [h.eq_of_shown r hr, Report.newline_mem_plain]
  simp only [not_exists, not_and]
  rfl

/-- Each report tells its number and its verdict in its first line. -/
theorem filterMap_told?_stdout (h : Reports read args o rs) (hj : o.json = false) :
    ((run read args).stdout.splitOn '\n').filterMap told? =
      (shown o rs).map fun r => (r.line, r.valid) := by
  have htold : ∀ r ∈ shown o rs, (r.plain.splitOn '\n').filterMap told? = [(r.line, r.valid)] := by
    intro r hr
    rw [h.eq_of_shown r hr]
    exact filterMap_told?_plain r.line r.expression
  rw [splitOn_stdout h hj, List.filterMap_append, List.filterMap_flatMap, List.flatMap_map,
    List.flatMap_congr htold, List.map_eq_flatMap]
  exact List.append_nil _

/-- **Plain output is the reports shown**, in their order.  It has a line for each, and no other, if
no bad escape has a line feed in its sequence, hence if the expressions come from a file or from
arguments without line feeds; and whatever they are, the output tells the number and the verdict of
each. -/
theorem plain_output (h : Reports read args o rs) (hj : o.json = false) :
    let out := (run read args).stdout
    let rows := (shown o rs).map Report.plain
    out = rows.flatMap line ∧
      (∀ r ∈ shown o rs, (r.valid → r.plain = Text.decimal r.line ++ ": OK".toList) ∧
        ∀ f, check r.expression = .rejected f →
          r.plain = Text.decimal r.line ++ (": ".toList ++ f.message)) ∧
      (out.splitOn '\n' = rows ++ [[]] ↔
        ∀ r ∈ shown o rs, ∀ c s, check r.expression = .rejected ⟨c, .badEscape s⟩ → '\n' ∉ s) ∧
      (args.head? = some "file".toList ∨ (∀ a ∈ args, '\n' ∉ a) →
        out.splitOn '\n' = rows ++ [[]]) ∧
      (out.splitOn '\n').filterMap told? = (shown o rs).map fun r => (r.line, r.valid) := by
  intro out rows
  have hrow : ∀ r ∈ shown o rs, (r.valid → r.plain = Text.decimal r.line ++ ": OK".toList) ∧
      ∀ f, check r.expression = .rejected f →
        r.plain = Text.decimal r.line ++ (": ".toList ++ f.message) := by
    intro r hr
    rw [h.eq_of_shown r hr]
    exact ⟨fun hv => Report.plain_of_accepted (Report.valid_of.mp hv),
      fun f => Report.plain_of_rejected⟩
  refine ⟨stdout_eq h hj, hrow, splitOn_stdout_eq_iff h hj, fun ha => ?_,
    filterMap_told?_stdout h hj⟩
  refine (splitOn_stdout_eq_iff h hj).mpr fun r hr c s hv hs => ?_
  have hmem : '\n' ∈ r.expression := (sequence_of_check hv).1 hs
  exact h.newline_notMem ha r (List.mem_filter.mp hr).1 hmem

/-- A file with a bad escape behind a blank line. -/
theorem plain_output_file :
    let read : Text → Except ReadFailure ByteArray := fun _ =>
      .ok "1\n\n'\\q'".toList.utf8Encode
    let args := ["file".toList, "rules".toList]
    let rs : List Report := [.of 1 ['1'], .of 3 "'\\q'".toList]
    Reports read args ⟨false, false, false⟩ rs ∧
      (run read args).stdout.splitOn '\n' = rs.map Report.plain ++ [[]] ∧
      ((run read args).stdout.splitOn '\n').filterMap told? = [(1, true), (3, false)] := by
  intro read args rs
  have hrs : Report.ofText "1\n\n'\\q'".toList = rs := by decide +kernel
  have ha : Arguments.ofList ["rules".toList] = .ok ⟨⟨false, false, false⟩, ["rules".toList]⟩ := rfl
  have hr : Reports read args ⟨false, false, false⟩ rs := hrs ▸ .file ha (textAt_of_read rfl)
  obtain ⟨-, -, -, hf, ht⟩ := plain_output hr rfl
  exact ⟨hr, hf (.inl rfl), ht.trans (by decide +kernel)⟩

/-- An argument with a line feed behind a backslash is reported on in two lines. -/
theorem plain_output_broken :
    let read : Text → Except ReadFailure ByteArray := fun _ => .error .notFound
    let args := ["check".toList, "'\\\n'".toList]
    let r : Report := .of 1 "'\\\n'".toList
    Reports read args ⟨false, false, false⟩ [r] ∧ shown ⟨false, false, false⟩ [r] = [r] ∧
      (run read args).stdout.splitOn '\n' =
        ["1: parse error at [column 1]: Illegal escape sequence: '\\".toList, ['\''], []] ∧
      (run read args).stdout.splitOn '\n' ≠
        (shown ⟨false, false, false⟩ [r]).map Report.plain ++ [[]] := by
  intro read args r
  have hrs : Report.ofExpressions ["'\\\n'".toList] = [r] := by decide +kernel
  have ha : Arguments.ofList ["'\\\n'".toList] =
      .ok ⟨⟨false, false, false⟩, ["'\\\n'".toList]⟩ := rfl
  have hr : Reports read args ⟨false, false, false⟩ [r] := hrs ▸ .check ha
  have hs : (run read args).stdout.splitOn '\n' =
      ["1: parse error at [column 1]: Illegal escape sequence: '\\".toList, ['\''], []] := by
    rw [run_of_reports hr]
    decide +kernel
  refine ⟨hr, rfl, hs, fun h => ?_⟩
  rw [hs] at h
  exact absurd (congrArg List.length h) (by decide)

end Command

end RuleCheck
