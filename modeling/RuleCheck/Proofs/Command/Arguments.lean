import RuleCheck.Proofs.Command.Options

/-!
# Proofs — Command — arguments partitioned

Sorting goes through the arguments one by one and stops at the first `--`.  `partition` says without
a loop what comes out of them: it cuts the row in two at that place and asks of the front part which
argument in it is the first that is unknown, which options are in it, and what is left when those
that begin with two dashes are taken out.

**Reading the arguments is partitioning them** (`Arguments.ofList_eq_partition`).  Of its three
errors the unknown option comes first, wherever it stands in front, then the missing input, then
`--pretty` without `--json`.  What the partition asks about options is only whether they are in
front, so **options may move and be repeated** there (`Rearranged.move`, `Rearranged.again`):
neither their places nor their numbers make a difference (`Arguments.ofList_congr`).
-/

namespace RuleCheck.Command

theorem not_isUnknown_of_mem_optionNames {a : Text} (h : a ∈ optionNames) : ¬ isUnknown a := by
  simp [isUnknown, h]

/-! ### Rows with the same options -/

/-- The rows have the same options, each in any places, and the same other arguments in the same
order. -/
structure Rearranged (as bs : List Text) : Prop where
  options : ∀ o ∈ optionNames, o ∈ as ↔ o ∈ bs
  others : as.filter (· ∉ optionNames) = bs.filter (· ∉ optionNames)

namespace Rearranged

variable {as bs : List Text}

/-- An option may move. -/
theorem move {o : Text} (h : o ∈ optionNames) (as bs cs : List Text) :
    Rearranged (as ++ o :: bs ++ cs) (as ++ bs ++ o :: cs) where
  options p _ := by simp [or_left_comm]
  others := by simp [h]

/-- An option may be repeated. -/
theorem again {o : Text} {as bs : List Text} (h : o ∈ optionNames) (hm : o ∈ as ++ bs) :
    Rearranged (as ++ bs) (as ++ o :: bs) where
  options p _ := by
    rw [List.perm_middle.mem_iff, List.mem_cons]
    exact ⟨.inr, fun hp => hp.elim (· ▸ hm) id⟩
  others := by simp [h]

/-- Arguments that are no options are found in both rows alike. -/
theorem filter_eq (h : Rearranged as bs) {p : Text → Bool} (hp : ∀ a ∈ optionNames, ¬ p a) :
    as.filter p = bs.filter p := by
  have hq : ∀ cs : List Text, cs.filter p = (cs.filter (· ∉ optionNames)).filter p := by
    intro cs
    rw [List.filter_filter]
    refine List.filter_congr fun a _ => ?_
    by_cases ha : a ∈ optionNames
    · simp [hp a ha]
    · simp [ha]
  rw [hq as, h.others, ← hq bs]

theorem find?_eq (h : Rearranged as bs) {p : Text → Bool} (hp : ∀ a ∈ optionNames, ¬ p a) :
    as.find? p = bs.find? p := by
  rw [← List.head?_filter, h.filter_eq hp, List.head?_filter]

theorem named_eq (h : Rearranged as bs) : Options.named as = Options.named bs := by
  simp only [Options.named, List.contains_eq_mem]
  congr 1 <;> exact decide_eq_decide.mpr (h.options _ (by decide))

end Rearranged

/-! ### The partition -/

namespace Arguments

/-- What the arguments are: the options in front, and for inputs all else in front that does not
begin with two dashes and all that comes behind.  An error is told by its text. -/
def partition (as : List Text) : Except Text Arguments :=
  match (front as).find? isUnknown with
  | some a => .error ("unknown option '".toList ++ a ++ ['\''])
  | none   =>
      let inputs := (front as).filter (!isDashed ·) ++ back as
      if inputs = [] then .error "no input given".toList
      else if "--pretty".toList ∈ front as ∧ "--json".toList ∉ front as then
        .error "--pretty requires --json".toList
      else .ok ⟨.named (front as), inputs⟩

theorem ofList_eq (as : List Text) :
    ofList as =
      match (front as).find? isUnknown with
      | some a => .error (.unknownOption a)
      | none   => validate (sorted as) := by
  rw [ofList, sort_eq]
  cases (front as).find? isUnknown <;> rfl

theorem mapError_validate_sorted (as : List Text) :
    (validate (sorted as)).mapError UsageError.message =
      if (front as).filter (!isDashed ·) ++ back as = [] then .error "no input given".toList
      else if "--pretty".toList ∈ front as ∧ "--json".toList ∉ front as then
        .error "--pretty requires --json".toList
      else .ok (sorted as) := by
  simp only [validate, sorted, Options.named, List.contains_eq_mem, decide_eq_true_eq]
  split
  · rfl
  · split <;> rfl

theorem mapError_ofList (as : List Text) :
    (ofList as).mapError UsageError.message = partition as := by
  rw [ofList_eq, partition]
  cases (front as).find? isUnknown with
  | some a => rfl
  | none   => exact mapError_validate_sorted as

theorem sorted_congr {as bs : List Text} (h : Rearranged (front as) (front bs))
    (hb : back as = back bs) : sorted as = sorted bs := by
  have hp : ∀ a ∈ optionNames, ¬ (!isDashed a) = true := fun a ha => by
    simp [isDashed_of_mem_optionNames ha]
  rw [sorted, sorted, h.named_eq, h.filter_eq hp, hb]

/-- Where the options stand in front and how often makes no difference. -/
theorem ofList_congr {as bs : List Text} (h : Rearranged (front as) (front bs))
    (hb : back as = back bs) : ofList as = ofList bs := by
  rw [ofList_eq, ofList_eq, h.find?_eq fun _ => not_isUnknown_of_mem_optionNames,
    sorted_congr h hb]

/-- **Reading the arguments** is partitioning them.  Options may move and be repeated in front, and
behind a `--` that stands first all is input. -/
theorem ofList_eq_partition :
    (∀ as, (ofList as).mapError UsageError.message = partition as) ∧
    (∀ as bs, Rearranged (front as) (front bs) → back as = back bs → ofList as = ofList bs) ∧
    (∀ es, es ≠ [] → ofList ("--".toList :: es) = .ok ⟨⟨false, false, false⟩, es⟩) :=
  ⟨mapError_ofList, fun _ _ => ofList_congr, fun es ne => @ofList_options [] es nofun nofun ne⟩

theorem ofList_eq_partition_mixed :
    let as := ["1", "--json", "-5", "--pretty", "--", "--quiet"].map String.toList
    let bs := ["--pretty", "--json", "1", "--json", "-5", "--", "--quiet"].map String.toList
    Rearranged (front as) (front bs) ∧ back as = back bs ∧ ofList as = ofList bs ∧
      partition as = .ok ⟨⟨true, true, false⟩, ["1", "-5", "--quiet"].map String.toList⟩ ∧
      ["--".toList] ≠ [] ∧
      ofList ["--".toList, "--".toList] = .ok ⟨⟨false, false, false⟩, ["--".toList]⟩ := by
  intro as bs
  have hr : Rearranged (front as) (front bs) := ⟨by decide, by decide⟩
  obtain ⟨-, hc, hd⟩ := ofList_eq_partition
  exact ⟨hr, rfl, hc as bs hr rfl, rfl, by decide, hd ["--".toList] (by decide)⟩

end Arguments

end RuleCheck.Command
