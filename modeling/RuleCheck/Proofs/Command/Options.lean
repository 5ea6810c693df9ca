import RuleCheck.Command.Options

/-!
# Proofs — Command — options and inputs told apart

Only the arguments before the first `--` can be options (`front`), and what comes behind it is input
as it is (`back`).  **Sorting finds the options named in front**, in any order and number, and takes
for inputs all else there and all that comes behind (`Arguments.sort_eq`); it refuses the first
argument in front that begins with two dashes and names no option.

So **options can be put in anywhere in front** (`Arguments.ofList_insert`): they are added to the
others, and the inputs stay.
-/

namespace RuleCheck.Command

/-- The arguments that are options. -/
def optionNames : List Text := ["--json".toList, "--pretty".toList, "--quiet".toList]

/-- Whether an argument begins with two dashes. -/
def isDashed (a : Text) : Bool := "--".toList.isPrefixOf a

/-- Whether an argument begins like an option and names none. -/
def isUnknown (a : Text) : Bool := isDashed a && !optionNames.contains a

/-- The arguments before the first `--`. -/
def front (as : List Text) : List Text := as.takeWhile (· ≠ "--".toList)

/-- The arguments behind the first `--`. -/
def back (as : List Text) : List Text := (as.dropWhile (· ≠ "--".toList)).tail

namespace Options

/-- The options that are among the arguments. -/
def named (as : List Text) : Options :=
  ⟨as.contains "--json".toList, as.contains "--pretty".toList, as.contains "--quiet".toList⟩

/-- The options of both. -/
def merge (o p : Options) : Options := ⟨o.json || p.json, o.pretty || p.pretty, o.quiet || p.quiet⟩

theorem named_append (as bs : List Text) : named (as ++ bs) = (named as).merge (named bs) := by
  simp [named, merge, Bool.decide_or]

theorem named_cons (a : Text) (as : List Text) :
    named (a :: as) = (named [a]).merge (named as) := named_append [a] as

/-- What is no option adds none. -/
theorem named_of_notMem {a : Text} (h : a ∉ optionNames) : named [a] = named [] := by
  simp_all [named, optionNames, eq_comm]

theorem named_congr {as bs : List Text} (h : ∀ a, a ∈ as ↔ a ∈ bs) : named as = named bs := by
  simp [named, h]

end Options

/-! ### In front and behind -/

theorem front_cons {a : Text} {as : List Text} (h : a ≠ "--".toList) :
    front (a :: as) = a :: front as := List.takeWhile_cons_of_pos (by simpa using h)

theorem back_cons {a : Text} {as : List Text} (h : a ≠ "--".toList) :
    back (a :: as) = back as := by
  rw [back, List.dropWhile_cons_of_pos (by simpa using h), back]

theorem front_append {as : List Text} (h : "--".toList ∉ as) (bs : List Text) :
    front (as ++ bs) = as ++ front bs := by
  induction as with
  | nil => rfl
  | cons a as ih =>
      rw [List.mem_cons, not_or] at h
      rw [List.cons_append, front_cons (Ne.symm h.1), ih h.2, List.cons_append]

theorem back_append {as : List Text} (h : "--".toList ∉ as) (bs : List Text) :
    back (as ++ bs) = back bs := by
  induction as with
  | nil => rfl
  | cons a as ih =>
      rw [List.mem_cons, not_or] at h
      rw [List.cons_append, back_cons (Ne.symm h.1), ih h.2]

@[simp] theorem front_dashes (as : List Text) : front ("--".toList :: as) = [] := rfl

@[simp] theorem back_dashes (as : List Text) : back ("--".toList :: as) = as := rfl

theorem isDashed_of_mem_optionNames {a : Text} (h : a ∈ optionNames) : isDashed a := by
  revert a
  decide

/-- No option is `--`. -/
theorem dashes_notMem {as : List Text} (h : ∀ a ∈ as, a ∈ optionNames) : "--".toList ∉ as :=
  fun hm => absurd (h _ hm) (by decide)

theorem filter_optionNames {as : List Text} (h : ∀ a ∈ as, a ∈ optionNames) :
    as.filter (!isDashed ·) = [] :=
  List.filter_eq_nil_iff.mpr fun a ha => by simp [isDashed_of_mem_optionNames (h a ha)]

/-! ### Sorting -/

namespace Arguments

/-- What the arguments are if none in front is unknown. -/
def sorted (as : List Text) : Arguments :=
  ⟨.named (front as), (front as).filter (!isDashed ·) ++ back as⟩

/-- The arguments with the options `o` too. -/
def withOptions (o : Options) (a : Arguments) : Arguments := { a with options := o.merge a.options }

theorem sort_cons_of_mem {a : Text} (as : List Text) (h : a ∈ optionNames) :
    sort (a :: as) = (sort as).map (withOptions (.named [a])) := by
  simp only [optionNames, List.mem_cons, List.not_mem_nil, or_false] at h
  rcases h with rfl | rfl | rfl <;> rfl

theorem sort_cons_of_isUnknown {a : Text} (as : List Text) (hne : a ≠ "--".toList)
    (h : isUnknown a) : sort (a :: as) = .error (.unknownOption a) := by
  simp only [isUnknown, Bool.and_eq_true, Bool.not_eq_true', List.contains_eq_mem,
    decide_eq_false_iff_not, optionNames, List.mem_cons, List.not_mem_nil, or_false, not_or] at h
  rw [sort, if_neg hne, if_neg h.2.1, if_neg h.2.2.1, if_neg h.2.2.2]
  exact if_pos h.1

theorem sort_cons_of_not_isDashed {a : Text} (as : List Text) (h : isDashed a = false) :
    sort (a :: as) = (sort as).map (withInput a) := by
  have hn : ∀ b, isDashed b → a ≠ b := by
    rintro b hb rfl
    rw [hb] at h
    cases h
  rw [sort, if_neg (hn _ rfl), if_neg (hn _ rfl), if_neg (hn _ rfl), if_neg (hn _ rfl)]
  exact if_neg (Bool.eq_false_iff.mp h)

theorem sorted_cons_of_mem {a : Text} (as : List Text) (h : a ∈ optionNames) :
    sorted (a :: as) = (sorted as).withOptions (.named [a]) := by
  have hd := isDashed_of_mem_optionNames h
  have hne : a ≠ "--".toList := by
    rintro rfl
    exact absurd h (by decide)
  rw [sorted, front_cons hne, back_cons hne, Options.named_cons,
    List.filter_cons_of_neg (by simp [hd])]
  rfl

theorem sorted_cons_of_not_isDashed {a : Text} (as : List Text) (h : isDashed a = false) :
    sorted (a :: as) = (sorted as).withInput a := by
  have hne : a ≠ "--".toList := by
    rintro rfl
    cases h
  have hn : a ∉ optionNames := by
    intro hm
    rw [isDashed_of_mem_optionNames hm] at h
    cases h
  rw [sorted, front_cons hne, back_cons hne, Options.named_cons, Options.named_of_notMem hn,
    List.filter_cons_of_pos (by simp [h])]
  rfl

/-- **Sorting** refuses the first unknown argument in front, and else it finds the options there and
takes all else for inputs. -/
theorem sort_eq (as : List Text) :
    sort as =
      match (front as).find? isUnknown with
      | some a => .error (.unknownOption a)
      | none   => .ok (sorted as) := by
  induction as with
  | nil => rfl
  | cons a as ih =>
      by_cases hne : a = "--".toList
      · subst hne
        rfl
      rw [front_cons hne]
      by_cases hu : isUnknown a
      · rw [sort_cons_of_isUnknown as hne hu, List.find?_cons_of_pos hu]
      rw [List.find?_cons_of_neg hu]
      by_cases hd : isDashed a
      · have ho : a ∈ optionNames := by simpa [isUnknown, hd] using hu
        rw [sort_cons_of_mem as ho, sorted_cons_of_mem as ho, ih]
        split <;> rfl
      · rw [sort_cons_of_not_isDashed as (by simpa using hd),
          sorted_cons_of_not_isDashed as (by simpa using hd), ih]
        split <;> rfl

theorem sort_eq_ok_iff {as : List Text} {a : Arguments} :
    sort as = .ok a ↔ (∀ b ∈ front as, isUnknown b = false) ∧ a = sorted as := by
  rw [sort_eq]
  cases hf : (front as).find? isUnknown with
  | none =>
      have hu : ∀ b ∈ front as, isUnknown b = false := by simpa using hf
      exact ⟨fun h => ⟨hu, (Except.ok.inj h).symm⟩, fun h => congrArg _ h.2.symm⟩
  | some b =>
      have hb := List.mem_of_find?_eq_some hf
      have hu := List.find?_some hf
      refine ⟨nofun, fun h => ?_⟩
      rw [h.1 b hb] at hu
      cases hu

theorem ofList_eq_ok_iff {as : List Text} {a : Arguments} :
    ofList as = .ok a ↔
      (∀ b ∈ front as, isUnknown b = false) ∧ a = sorted as ∧ a.inputs ≠ [] ∧
        (a.options.pretty → a.options.json) := by
  have hv : ofList as = .ok a ↔ sort as = .ok a ∧ a.inputs ≠ [] ∧
      (a.options.pretty → a.options.json) := by
    rw [ofList]
    cases hs : sort as with
    | error e => exact ⟨nofun, fun h => nomatch h.1⟩
    | ok b =>
        change validate b = _ ↔ _
        rw [validate]
        split
        · rename_i hi
          refine ⟨nofun, fun h => absurd hi ?_⟩
          obtain rfl := Except.ok.inj h.1
          exact h.2.1
        · split
          · rename_i hp
            refine ⟨nofun, fun h => absurd ?_ hp.2⟩
            obtain rfl := Except.ok.inj h.1
            exact h.2.2 hp.1
          · rename_i hi hp
            refine ⟨?_, And.left⟩
            intro h
            obtain rfl := Except.ok.inj h
            exact ⟨rfl, hi, fun h => by simpa [h] using hp⟩
  rw [hv, sort_eq_ok_iff, and_assoc]

/-- The inputs are among the arguments. -/
theorem inputs_subset_of_ofList {as : List Text} {a : Arguments} (h : ofList as = .ok a) :
    a.inputs ⊆ as := by
  obtain ⟨-, rfl, -, -⟩ := ofList_eq_ok_iff.mp h
  have hback : back as ⊆ as :=
    ((List.tail_sublist _).trans (List.dropWhile_sublist _)).subset
  have hfront : (front as).filter (!isDashed ·) ⊆ as :=
    (List.filter_sublist.trans (List.takeWhile_sublist _)).subset
  exact List.append_subset.mpr ⟨hfront, hback⟩

/-! ### Options put in -/

/-- The row `bs` is the row `as` with the options `added` put in, each anywhere. -/
structure Insertion (added as bs : List Text) : Prop where
  options : ∀ a ∈ added, a ∈ optionNames
  sublist : as.Sublist bs
  perm : bs.Perm (added ++ as)

namespace Insertion

variable {added as bs : List Text}

theorem dashes_notMem (h : Insertion added as bs) (hd : "--".toList ∉ as) : "--".toList ∉ bs := by
  rw [h.perm.mem_iff, List.mem_append, not_or]
  exact ⟨Command.dashes_notMem h.options, hd⟩

/-- What is no option stays as it is. -/
theorem filter_eq (h : Insertion added as bs) :
    bs.filter (!isDashed ·) = as.filter (!isDashed ·) := by
  refine ((h.sublist.filter _).eq_of_length ?_).symm
  rw [(h.perm.filter _).length_eq, List.filter_append, filter_optionNames h.options,
    List.nil_append]

theorem sorted_eq (h : Insertion added as bs) (hd : "--".toList ∉ as) (cs : List Text) :
    sorted (bs ++ cs) = (sorted (as ++ cs)).withOptions (.named added) := by
  have hn : Options.named (bs ++ front cs) = Options.named (added ++ (as ++ front cs)) :=
    Options.named_congr fun a => by simp [h.perm.mem_iff, or_assoc]
  simp only [sorted, withOptions, front_append hd, back_append hd,
    front_append (h.dashes_notMem hd), back_append (h.dashes_notMem hd), List.filter_append,
    h.filter_eq, hn, Options.named_append added]

end Insertion

/-- **Options can be put in** anywhere in front.  They are added to the others. -/
theorem ofList_insert {added as bs cs : List Text} {a : Arguments}
    (h : ofList (as ++ cs) = .ok a) (hd : "--".toList ∉ as) (hi : Insertion added as bs)
    (hp : (Options.named added).pretty → (Options.named added).json) :
    ofList (bs ++ cs) = .ok (a.withOptions (.named added)) := by
  obtain ⟨hu, rfl, hne, hj⟩ := ofList_eq_ok_iff.mp h
  refine ofList_eq_ok_iff.mpr ⟨fun b hb => ?_, (hi.sorted_eq hd cs).symm, hne, fun h => ?_⟩
  · rw [front_append (hi.dashes_notMem hd), List.mem_append, hi.perm.mem_iff, List.mem_append,
      or_assoc] at hb
    rcases hb with hb | hb
    · simp [isUnknown, hi.options b hb]
    · exact hu b (by rwa [front_append hd, List.mem_append])
  · simp only [withOptions, Options.merge, Bool.or_eq_true] at h ⊢
    exact h.imp hp hj

/-- Behind options and `--` all is input. -/
theorem ofList_options {opts inputs : List Text} (h : ∀ a ∈ opts, a ∈ optionNames)
    (hp : (Options.named opts).pretty → (Options.named opts).json) (ne : inputs ≠ []) :
    ofList (opts ++ "--".toList :: inputs) = .ok ⟨.named opts, inputs⟩ := by
  have hd := Command.dashes_notMem h
  have hf : front (opts ++ "--".toList :: inputs) = opts := by
    rw [front_append hd, front_dashes, List.append_nil]
  refine ofList_eq_ok_iff.mpr ⟨fun b hb => ?_, ?_, ne, hp⟩
  · rw [hf] at hb
    simp [isUnknown, h b hb]
  · rw [sorted, hf, back_append hd, back_dashes, filter_optionNames h, List.nil_append]

end Arguments

end RuleCheck.Command
