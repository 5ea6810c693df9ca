import Mathlib.Data.List.Chain
import RuleCheck.Proofs.Grammar.Slot
import RuleCheck.Proofs.Scan.Completion
import RuleCheck.Proofs.Scan.Resumption
import RuleCheck.Scan.Log

/-!
# Proofs — Scan — the log told again

A log is written while the scan goes on: the record of an acceptance bears the column from before
the step and what may come from after it, a step over a blank writes none, and one that fails writes
none.

**Read on its own, the log replays the scan** (`log_replays`).  Its acceptances are a `Trail`: their
columns grow, and the kind in each is one that the set in the record before it admits.  A run leaves
such a trail behind, one record for each step that is none over a blank (`Scan.trail_records`), from
what may come at the scan to what may come where it halts; so a lexeme that is unexpected there
stands behind all that are logged, and the last set logged does not admit it.  The columns and the
lexemes are those of the lexing of the text, which knows of no grammar, as far as the scan goes.

A log is a row of texts, and **nothing of this is lost in writing it**
(`Record.message_acceptance_inj`): the kind, the column and the set can be told from what a record
shows.
-/

namespace RuleCheck

/-! ### Trails -/

/-- The acceptance of a lexeme that may come where `S` says what may, with what may come behind. -/
structure Acceptance.Follows (a : Acceptance) (S : Slots) : Prop where
  admits : S.admits a.lexeme.kind
  slots_eq : a.slots = S.after a.lexeme.kind

/-- Acceptances one behind the other, from the column `c` on and where `S` says what may come.  All
are before the column `d`, and `T` is what may come behind them. -/
inductive Trail : Nat → Slots → List Acceptance → Nat → Slots → Prop where
  | nil {c d : Nat} (S : Slots) (h : c ≤ d) : Trail c S [] d S
  | cons {c d : Nat} {S T : Slots} {a : Acceptance} {as : List Acceptance} (hc : c ≤ a.column)
      (ha : a.Follows S) (h : Trail (a.column + 1) a.slots as d T) : Trail c S (a :: as) d T

namespace Trail

variable {c d : Nat} {S T : Slots} {as : List Acceptance}

theorem weaken {b : Nat} (hb : b ≤ c) (h : Trail c S as d T) : Trail b S as d T := by
  cases h with
  | nil _ h => exact .nil _ (hb.trans h)
  | cons hc ha h => exact .cons (hb.trans hc) ha h

theorem le (h : Trail c S as d T) : c ≤ d := by
  induction h with
  | nil _ h => exact h
  | cons hc _ _ ih => omega

theorem le_column (h : Trail c S as d T) : ∀ a ∈ as, c ≤ a.column := by
  induction h with
  | nil => nofun
  | cons hc _ _ ih =>
      refine List.forall_mem_cons.mpr ⟨hc, fun b hb => ?_⟩
      have := ih b hb
      omega

theorem column_lt (h : Trail c S as d T) : ∀ a ∈ as, a.column < d := by
  induction h with
  | nil => nofun
  | cons _ _ h ih => exact List.forall_mem_cons.mpr ⟨h.le, ih⟩

/-- The columns along a trail grow. -/
theorem pairwise (h : Trail c S as d T) : as.Pairwise (·.column < ·.column) := by
  induction h with
  | nil => exact .nil
  | cons _ _ h ih => exact .cons h.le_column ih

theorem follows_head (h : Trail c S as d T) : ∀ a ∈ as.head?, a.Follows S := by
  cases h with
  | nil => nofun
  | cons _ ha _ =>
      rintro a ⟨⟩
      exact ha

/-- Each acceptance along a trail follows the set of the one before it. -/
theorem isChain (h : Trail c S as d T) : as.IsChain fun a b => b.Follows a.slots := by
  induction h with
  | nil => exact .nil
  | cons _ _ h ih => exact ih.cons h.follows_head

theorem slots_eq (h : Trail c S as d T) : T = (as.getLast?.map Acceptance.slots).getD S := by
  induction h with
  | nil => rfl
  | @cons _ _ _ _ a as _ _ _ ih =>
      rw [ih, List.getLast?_cons]
      cases as.getLast? <;> rfl

end Trail

/-! ### The acceptances of a run -/

namespace Scan

/-- The acceptances of a run that are logged. -/
def records (s : Scan) : List Acceptance := s.run.accepted.filter (·.lexeme.kind ≠ .blank)

variable {s : Scan} {l : Lexeme}

theorem records_of_end (hv : s.reported = .accepted) (h : s.place.ahead = []) :
    s.records = [] := by
  rw [records, run_of_end hv h]
  rfl

theorem records_of_error {f : Fault} (hv : s.reported = .accepted) (ne : s.place.ahead ≠ [])
    (h : s.next = .error f) : s.records = [] := by
  rw [records, run_of_error hv ne h]
  rfl

theorem records_of_blank (hv : s.reported = .accepted) (h : s.next = .ok l)
    (hb : l.kind = .blank) : s.records = (s.accept l).records := by
  simp [records, run_of_ok hv h, Run.cons, hb]

theorem records_of_ok (hv : s.reported = .accepted) (h : s.next = .ok l) (hb : l.kind ≠ .blank) :
    s.records = ⟨s.place.column, l, (s.accept l).progress.slots⟩ :: (s.accept l).records := by
  simp [records, run_of_ok hv h, Run.cons, hb]

/-- **A run leaves a trail**, from where the scan is to where it halts. -/
theorem trail_records (hv : s.reported = .accepted) :
    Trail s.place.column s.progress.slots s.records s.halt.place.column s.halt.progress.slots := by
  induction s, hv using run_induction with
  | stop s hv he =>
      rw [records_of_end hv he, halt_of_end hv he]
      exact .nil _ le_rfl
  | fail s hv f he hf =>
      rw [records_of_error hv he hf, halt_of_error hv he hf]
      exact .nil _ le_rfl
  | goOn s hv l hl ih =>
      have hr := read_of_next hl
      have hw := width_pos hr
      rw [column_accept hr] at ih
      rw [halt_of_ok hv hl]
      by_cases hb : l.kind = .blank
      · -- a blank is not logged, and what may come stays
        have hp : (s.accept l).progress = s.progress := by simp [hb]
        rw [hp] at ih
        rw [records_of_blank hv hl hb]
        exact ih.weaken (Nat.le_add_right ..)
      · rw [records_of_ok hv hl hb]
        have ha : Acceptance.Follows ⟨s.place.column, l, (s.accept l).progress.slots⟩
            s.progress.slots := ⟨admits_of_next hl, Progress.slots_after ..⟩
        exact .cons le_rfl ha (ih.weaken (Nat.add_le_add_left hw _))

/-! ### The lexemes that are logged -/

/-- One acceptance is logged for each lexeme accepted that is no blank. -/
theorem lexeme_records (hv : s.reported = .accepted) {n : Nat} (hn : s.place.ahead.length ≤ n) :
    s.records.map Acceptance.lexeme = significant (s.taken n) := by
  rw [taken_eq hv hn, significant, List.filter_map, records]
  rfl

/-- The lexemes accepted have the columns at which they are placed in the text. -/
theorem placed_accepted (hv : s.reported = .accepted) :
    s.run.accepted.map (fun a => (a.column, a.lexeme)) =
      placed s.place.column (s.run.accepted.map Acceptance.lexeme) := by
  induction s, hv using run_induction with
  | stop s hv he =>
      rw [run_of_end hv he]
      rfl
  | fail s hv f he hf =>
      rw [run_of_error hv he hf]
      rfl
  | goOn s hv l hl ih =>
      rw [run_of_ok hv hl, Run.cons, List.map_cons, ih, column_accept (read_of_next hl)]
      rfl

/-- What is logged are the first lexemes of the text that are no blanks. -/
theorem records_prefix (t : Text) :
    (start t).records.map (fun a => (a.column, a.lexeme)) <+:
      (placed 0 (lexing t).lexemes).filter (·.2.kind ≠ .blank) := by
  have hx := (steps_halt (s := start t) rfl).1.lexes.lexing_eq
  rw [show (start t).place.ahead = t from rfl] at hx
  rw [hx, placed_append, List.filter_append]
  have hp : (start t).records.map (fun a => (a.column, a.lexeme)) =
      (placed 0 ((start t).run.accepted.map Acceptance.lexeme)).filter (·.2.kind ≠ .blank) := by
    have := placed_accepted (s := start t) rfl
    rw [show (start t).place.column = 0 from rfl] at this
    rw [← this, List.filter_map, records]
    rfl
  rw [hp]
  exact List.prefix_append ..

/-! ### The fault of a lexeme that is unexpected -/

theorem of_next_unexpected {c : Nat} {k : Kind} (h : s.next = .error ⟨c, .unexpected k⟩) :
    c = s.place.column ∧ s.progress.admits k = false := by
  simp only [next] at h
  split at h
  · cases h
  · cases h
  · split at h <;> cases h
    rename_i ha
    exact ⟨rfl, Bool.eq_false_iff.mpr ha⟩

/-- A lexeme that is unexpected stands where the run halts. -/
theorem of_verdict_unexpected {c : Nat} {k : Kind} (hv : s.reported = .accepted)
    (h : s.run.verdict = .rejected ⟨c, .unexpected k⟩) :
    c = s.halt.place.column ∧ s.halt.progress.slots.admits k = false := by
  rcases (steps_halt hv).2 with ⟨-, hr⟩ | ⟨-, f, hf, hr⟩
  · rcases cause_of_finish (hr.symm.trans h) with hc | hc <;> cases hc
  · obtain rfl := Verdict.rejected.inj (hr.symm.trans h)
    exact of_next_unexpected hf

end Scan

/-! ### What a record shows -/

theorem Kind.blank_notMem_name (k : Kind) : ' ' ∉ k.name := by
  cases k <;> decide

theorem Text.decimal_injective {m n : Nat} (h : decimal m = decimal n) : m = n := by
  have h := congrArg (Nat.ofDigitChars 10 · 0) h
  simpa only [decimal, Nat.ofDigitChars_ten_toDigits] using h

namespace Record

variable (u : Unicode)

theorem message_acceptance (a : Acceptance) :
    (acceptance a).message u =
      "accepted ".toList ++ (a.lexeme.kind.name ++ ' ' :: ("at column ".toList ++
        (Text.decimal a.column ++ ';' :: (" permitted ".toList ++ a.slots.render)))) := by
  have hc : " at column ".toList = ' ' :: "at column ".toList := by decide
  have hp : "; permitted ".toList = ';' :: " permitted ".toList := by decide
  unfold message
  dsimp only
  rw [hc, hp]
  simp only [List.append_assoc, List.cons_append]

/-- **The record of an acceptance shows** the kind accepted, the column and what may come next, and
no more than that. -/
theorem message_acceptance_inj {a b : Acceptance} :
    (acceptance a).message u = (acceptance b).message u ↔
      a.lexeme.kind = b.lexeme.kind ∧ a.column = b.column ∧ a.slots = b.slots := by
  have hd : ∀ n, ';' ∉ Text.decimal n := fun n h =>
    absurd (Text.isDigit_of_mem_decimal h) (by decide)
  rw [message_acceptance, message_acceptance]
  constructor
  · intro h
    obtain ⟨hk, h⟩ := append_cons_inj (Kind.blank_notMem_name _) (Kind.blank_notMem_name _)
      (List.append_cancel_left h)
    obtain ⟨hc, h⟩ := append_cons_inj (hd _) (hd _) (List.append_cancel_left h)
    exact ⟨Kind.name_injective hk, Text.decimal_injective hc,
      Slots.render_injective (List.append_cancel_left h)⟩
  · rintro ⟨hk, hc, hs⟩
    rw [hk, hc, hs]

/-- The record of a verdict says that the text is accepted, or it ends with what is wrong. -/
theorem message_verdict (t : Text) (v : Verdict) :
    ("expression accepted: ".toList <+: (verdict t v).message u ↔ v = .accepted) ∧
      ∀ f, v = .rejected f →
        (verdict t v).message u =
          "expression rejected: ".toList ++ t.quoted u ++ ": ".toList ++ f.message := by
  cases v with
  | accepted => exact ⟨iff_of_true (List.prefix_append ..) rfl, nofun⟩
  | rejected f =>
      refine ⟨iff_of_false (fun h => ?_) nofun, ?_⟩
      · -- the beginnings of the two messages have one length
        have hr : "expression rejected: ".toList <+: (verdict t (.rejected f)).message u :=
          ((List.prefix_append ..).trans (List.prefix_append ..)).trans (List.prefix_append ..)
        have := List.prefix_of_prefix_length_le h hr (by decide)
        revert this
        decide
      · rintro g ⟨⟩
        rfl

end Record

/-! ### The log -/

theorem log_eq (t : Text) :
    log t = (Scan.start t).records.map .acceptance ++ [.verdict t (check t)] := rfl

/-- The levels tell the acceptances from the verdict. -/
theorem filter_level_log (t : Text) :
    (log t).filter (·.level = .trace) = (Scan.start t).records.map .acceptance ∧
      (log t).filter (·.level = .debug) = [.verdict t (check t)] := by
  have htrace : ∀ as : List Acceptance,
      (as.map Record.acceptance).filter (·.level = .trace) = as.map .acceptance := fun as =>
    List.filter_eq_self.mpr <| List.forall_mem_map.mpr fun _ _ => rfl
  have hdebug : ∀ as : List Acceptance,
      (as.map Record.acceptance).filter (·.level = .debug) = [] := fun as =>
    List.filter_eq_nil_iff.mpr <| List.forall_mem_map.mpr fun _ _ => nofun
  rw [log_eq, List.filter_append, List.filter_append, htrace, hdebug]
  exact ⟨List.append_nil _, rfl⟩

/-- **The log replays the scan.**  Its records on the level `trace` are those of acceptances, one
for each lexeme accepted that is no blank, and they show all that the rest says of them.  They have
the lexemes and the columns of the text read without any grammar, and each follows the set that the
one before it shows.  The last record is the only one on the level `debug`, and says what the
verdict is. -/
theorem log_replays (u : Unicode) (t : Text) :
    let as := (Scan.start t).records
    log t = as.map .acceptance ++ [.verdict t (check t)] ∧
      ((log t).filter (·.level = .trace) = as.map .acceptance ∧
        (log t).filter (·.level = .debug) = [.verdict t (check t)]) ∧
      (∀ a : Acceptance, (Record.acceptance a).message u =
        "accepted ".toList ++ a.lexeme.kind.name ++ " at column ".toList ++ Text.decimal a.column ++
          "; permitted ".toList ++ a.slots.render) ∧
      (∀ a b : Acceptance, (Record.acceptance a).message u = (Record.acceptance b).message u ↔
        a.lexeme.kind = b.lexeme.kind ∧ a.column = b.column ∧ a.slots = b.slots) ∧
      (∀ n, t.length ≤ n →
        as.map Acceptance.lexeme = significant ((Scan.start t).taken n)) ∧
      as.map (fun a => (a.column, a.lexeme)) <+:
        (placed 0 (lexing t).lexemes).filter (·.2.kind ≠ .blank) ∧
      as.Pairwise (·.column < ·.column) ∧
      (∀ a ∈ as.head?, a.Follows .start) ∧
      as.IsChain (fun a b => b.Follows a.slots) ∧
      (∀ c k, check t = .rejected ⟨c, .unexpected k⟩ →
        (∀ a ∈ as, a.column < c) ∧
          ((as.getLast?.map Acceptance.slots).getD .start).admits k = false) ∧
      ("expression accepted: ".toList <+: (Record.verdict t (check t)).message u ↔
        check t = .accepted) ∧
      (∀ f, check t = .rejected f →
        (Record.verdict t (check t)).message u =
          "expression rejected: ".toList ++ t.quoted u ++ ": ".toList ++ f.message) := by
  intro as
  have ht : Trail 0 .start as _ _ := Scan.trail_records (s := .start t) rfl
  have hunexpected : ∀ c k, check t = .rejected ⟨c, .unexpected k⟩ →
      (∀ a ∈ as, a.column < c) ∧
        ((as.getLast?.map Acceptance.slots).getD .start).admits k = false := fun c k h => by
    obtain ⟨rfl, hk⟩ := Scan.of_verdict_unexpected rfl h
    exact ⟨ht.column_lt, ht.slots_eq ▸ hk⟩
  exact ⟨log_eq t, filter_level_log t, fun _ => rfl, fun _ _ => Record.message_acceptance_inj u,
    fun _ => Scan.lexeme_records (s := .start t) rfl, Scan.records_prefix t, ht.pairwise,
    ht.follows_head, ht.isChain, hunexpected, Record.message_verdict u t (check t)⟩

/-- A lexeme that is unexpected, in a text with a blank that is quoted by its code point. -/
theorem log_replays_unexpected :
    let u : Unicode := ⟨fun _ => false, fun c => c ≠ '\u00a0'⟩
    let t : Text := "f( 1 '\u00a0'".toList
    let as := (Scan.start t).records
    check t = .rejected ⟨5, .unexpected .string⟩ ∧
      as.map Acceptance.column = [0, 1, 3] ∧
      t.quoted u = "\"f( 1 '\\u\x7ba0\x7d'\"".toList ∧
      as.map Acceptance.lexeme = significant ((Scan.start t).taken 8) ∧
      (∀ a ∈ as.head?, a.Follows .start) ∧
      (∀ a ∈ as, a.column < 5) ∧
      ((as.getLast?.map Acceptance.slots).getD .start).admits .string = false ∧
      (Record.verdict t (check t)).message u =
        "expression rejected: ".toList ++ t.quoted u ++ ": ".toList ++
          (Fault.mk 5 (.unexpected .string)).message := by
  intro u t as
  have h : check t = .rejected ⟨5, .unexpected .string⟩ := by decide +kernel
  obtain ⟨-, -, -, -, hl, -, -, hs, -, hu, -, hm⟩ := log_replays u t
  obtain ⟨hlt, ha⟩ := hu 5 .string h
  exact ⟨h, by decide +kernel, by decide +kernel, hl 8 (by decide), hs, hlt, ha, hm _ h⟩

end RuleCheck
