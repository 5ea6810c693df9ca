import RuleCheck.Proofs.Lexeme.Extension
import RuleCheck.Proofs.Scan.Language

/-!
# Proofs — Scan — blanks put in

**Blanks can be put in between the lexemes of an accepted text**, and before and behind them all
(`check_insert_blanks`).  A space can be put in at the end only: elsewhere it may make an operator
of a name behind it.

The lexemes before the place are read again, and the blanks are blanks (`lexes_blanks`), with one
exception: a path goes on to a parenthesis or a comma, so it takes the blanks behind it, and is a
path still, since none of them is a slash (`Spells.path_append`).
-/

namespace RuleCheck

open Form (isWordChar isPathChar)

/-- The columns where a lexeme of a text begins, and where the text begins and ends. -/
def boundaries (t : Text) : List Nat :=
  0 :: t.length :: (placed 0 (lexing t).lexemes).map Prod.fst

/-- A text of lexemes is cut between two of them. -/
theorem exists_append_of_mem_boundaries {t : Text} {k : Nat}
    (h : Lexes t (lexing t).lexemes []) (hk : k ∈ boundaries t) :
    ∃ a b, (lexing t).lexemes = a ++ b ∧ totalWidth a = k := by
  simp only [boundaries, List.mem_cons, List.mem_map] at hk
  rcases hk with rfl | rfl | ⟨⟨c, l⟩, hc, rfl⟩
  · exact ⟨[], _, rfl, rfl⟩
  · obtain ⟨u, hu, hlen⟩ := h.exists_append
    refine ⟨_, [], (List.append_nil _).symm, ?_⟩
    rw [← hlen, hu, List.append_nil]
  · obtain ⟨a, b, hr, rfl⟩ := mem_placed_iff.mp hc
    exact ⟨a, l :: b, hr, (Nat.zero_add _).symm⟩

/-! ### Blanks -/

/-- The lexemes of a text of blanks. -/
def blanks (w : Text) : List Lexeme := w.map fun _ => ⟨.blank, 1⟩

@[simp] theorem kinds_blanks (w : Text) : kinds (blanks w) = [] := by
  induction w with
  | nil => rfl
  | cons c w ih => exact (kinds_cons_blank rfl).trans ih

/-- Where no space is, and where no word follows the blanks, no operator begins with a blank. -/
theorem not_begins_blank {c : Char} {w t : Text} (hc : c.isWhitespace)
    (hw : ∀ d ∈ w, d.isWhitespace) (hs : c = ' ' → ∀ d ∈ t.head?, ¬ isWordChar d)
    (op : Operator) : ¬ op.begins (c :: (w ++ t)) := by
  intro hop
  obtain ⟨hp, -⟩ := Operator.begins_iff.mp hop
  obtain ⟨name, hn, hsp⟩ := Operator.exists_name hc hp
  rw [hn, List.cons_prefix_cons] at hp
  obtain ⟨rfl, hp⟩ := hp
  cases hsp with
  | @function d name _ hname _ =>
      have hd : isWordChar d := hname d (List.mem_cons_self ..)
      -- the operator's word would begin with a blank, or with what follows the blanks
      cases w with
      | nil =>
          obtain ⟨r, rfl⟩ := hp
          exact hs rfl d rfl hd
      | cons e w =>
          obtain ⟨rfl, -⟩ := List.cons_prefix_cons.mp hp
          exact not_isWordChar_of_isWhitespace (hw d (List.mem_cons_self ..)) hd

theorem lexes_blanks {w t : Text} (hw : ∀ c ∈ w, c.isWhitespace)
    (hs : ' ' ∈ w → ∀ d ∈ t.head?, ¬ isWordChar d) : Lexes (w ++ t) (blanks w) t := by
  induction w with
  | nil => exact .nil t
  | cons c w ih =>
      simp only [List.mem_cons, forall_eq_or_imp] at hw
      have hb : Clear .blank [c] (w ++ t) :=
        fun op => not_begins_blank hw.1 hw.2 (fun h => hs (h ▸ List.mem_cons_self ..)) op
      exact Lexes.spell (.blank hw.1) hb (ih hw.2 fun h => hs (List.mem_cons_of_mem _ h))

/-! ### A path with blanks behind it -/

/-- Characters other than the mark belong to the last piece. -/
theorem exists_splitOn_append {m : Char} {w : Text} (hw : m ∉ w) (p : Text) :
    ∃ ps l, p.splitOn m = ps ++ [l] ∧ (p ++ w).splitOn m = ps ++ [l ++ w] := by
  induction p with
  | nil => exact ⟨[], [], rfl, List.splitOn_eq_singleton hw⟩
  | cons c p ih =>
      obtain ⟨ps, l, hp, hpw⟩ := ih
      rw [List.cons_append, List.splitOn_cons_eq_if_modifyHead, List.splitOn_cons_eq_if_modifyHead,
        hp, hpw]
      split
      · exact ⟨[] :: ps, l, rfl, rfl⟩
      · cases ps with
        | nil => exact ⟨[], c :: l, rfl, rfl⟩
        | cons q ps => exact ⟨(c :: q) :: ps, l, rfl, rfl⟩

theorem isPathChar_of_isWhitespace {c : Char} (h : c.isWhitespace) : isPathChar c := by
  simp only [Char.isWhitespace, Bool.or_eq_true, decide_eq_true_eq, or_assoc] at h
  rcases h with rfl | rfl | rfl | rfl <;> decide

/-- Blanks behind a path belong to its last segment. -/
theorem Spells.path_append {p w : Text} (h : Spells (.path p) p)
    (hw : ∀ c ∈ w, c.isWhitespace) : Spells (.path (p ++ w)) (p ++ w) := by
  cases h with
  | @path r hr hs =>
      have hm : '/' ∉ w := fun hm => by cases hw _ hm
      obtain ⟨ps, l, hp, hpw⟩ := exists_splitOn_append hm r
      refine .path (r := r ++ w) (fun c hc => ?_) ?_
      · rcases List.mem_append.mp hc with hc | hc
        · exact hr c hc
        · exact isPathChar_of_isWhitespace (hw c hc)
      · rw [hp] at hs
        rw [hpw]
        simp only [List.all_append, List.all_cons, List.all_nil, Bool.and_true, Bool.and_eq_true,
          decide_eq_true_eq] at hs ⊢
        exact ⟨hs.1, fun hl => hs.2 (List.append_eq_nil_iff.mp hl).1⟩

/-! ### Blanks behind a row of lexemes -/

/-- A text of which another begins like the text behind a row can come there instead. -/
theorem Lexes.replace {u s v : Text} {r : List Lexeme} (h : Lexes (u ++ s) r s) (ne : s ≠ [])
    (hv : Apart v) (hl : ∀ l ∈ r.getLast?, l.kind ≠ .blank → ∀ w, Clear l.token w v) :
    Lexes (u ++ v) r v := by
  obtain ⟨u', hu, hr⟩ := h.exchange ne hv hl
  rwa [List.append_cancel_right hu]

theorem apart_of_isWhitespace {c : Char} {t : Text} (hc : c.isWhitespace) (hs : c ≠ ' ') :
    Apart (c :: t) := by
  intro d hd op
  cases hd
  simp only [Char.isWhitespace, Bool.or_eq_true, decide_eq_true_eq, or_assoc] at hc
  rcases hc with rfl | rfl | rfl | rfl
  · contradiction
  all_goals cases op <;> decide

theorem Spells.eq_path {k : Token} {p : Text} (h : Spells k p) (hk : k.kind = .path) :
    k = .path p ∧ p.head? = some '.' := by
  cases h with
  | path => exact ⟨rfl, rfl⟩
  | _ => cases hk

section
variable {u s w : Text} {r : List Lexeme}

/-- A path takes the blanks behind it. -/
theorem Lexes.insert_path {l : Lexeme} (h : Lexes (u ++ s) (r ++ [l]) s) (hk : l.kind = .path)
    (hw : ∀ c ∈ w, c.isWhitespace) :
    ∃ p, Lexes (u ++ (w ++ s)) (r ++ [⟨.path p, p.length⟩]) s := by
  obtain ⟨k, n⟩ := l
  obtain ⟨v, p, rfl, hs, hc, hx⟩ := h.concat
  obtain ⟨rfl, hd⟩ := hs.eq_path hk
  have hh : ∀ y, (p ++ y).head? = some '.' := fun y => by
    rw [List.head?_append, hd]
    rfl
  have hr : Lexes (v ++ (p ++ (w ++ s))) r (p ++ (w ++ s)) := by
    refine hx.replace (by simp [hs.ne_nil]) (fun c hc op => ?_) fun j hj hb y => ?_
    · rw [hh] at hc
      cases hc
      cases op <;> decide
    · exact (hx.clear_last j hj hb y).congr hb ((hh s).trans (hh _).symm)
  have hl : Lexes (p ++ w ++ s) [⟨.path (p ++ w), (p ++ w).length⟩] s :=
    .spell (hs.path_append hw) hc (.nil s)
  rw [List.append_assoc] at hl
  refine ⟨p ++ w, ?_⟩
  rw [List.append_assoc]
  exact hr.append hl

/-- Behind any other lexeme the blanks are lexemes of their own. -/
theorem Lexes.insert_blanks (h : Lexes (u ++ s) r s) (hp : ∀ l ∈ r.getLast?, l.kind ≠ .path)
    (hw : ∀ c ∈ w, c.isWhitespace) (hs : ' ' ∈ w → s = []) (ne : w ≠ [])
    (he : s = [] → ∀ k ∈ (kinds r).getLast?, k.mayEnd) :
    Lexes (u ++ (w ++ s)) (r ++ blanks w) s := by
  refine Lexes.append ?_ (lexes_blanks hw fun h => by simp [hs h])
  cases w with
  | nil => exact absurd rfl ne
  | cons c w =>
      have hc := hw c (List.mem_cons_self ..)
      have hv : ∀ d ∈ (c :: w ++ s).head?, ¬ isWordChar d := by
        intro d hd
        cases hd
        exact not_isWordChar_of_isWhitespace hc
      have hl : ∀ l ∈ r.getLast?, l.kind ≠ .blank → ∀ v, Clear l.token v (c :: w ++ s) :=
        fun l hl hb v => clear_of_not_isWordChar hb (hp l hl) (fun _ => List.cons_ne_nil _ _) hv
      by_cases hn : s = []
      · subst hn
        rw [List.append_nil] at h
        exact h.extend (he rfl) hv hl
      · have hsp : c ≠ ' ' := by
          rintro rfl
          exact hn (hs (List.mem_cons_self ..))
        exact h.replace hn (apart_of_isWhitespace hc hsp) hl

/-- **Blanks behind a row of lexemes** change nothing of the kinds. -/
theorem Lexes.insert (h : Lexes (u ++ s) r s) (hw : ∀ c ∈ w, c.isWhitespace)
    (hs : ' ' ∈ w → s = []) (he : s = [] → ∀ k ∈ (kinds r).getLast?, k.mayEnd) :
    ∃ r', Lexes (u ++ (w ++ s)) r' s ∧ kinds r' = kinds r := by
  by_cases ne : w = []
  · subst ne
    exact ⟨r, h, rfl⟩
  · by_cases hp : ∃ l ∈ r.getLast?, l.kind = .path
    · obtain ⟨l, hl, hk⟩ := hp
      obtain ⟨r, rfl⟩ := List.getLast?_eq_some_iff.mp hl
      obtain ⟨p, hp⟩ := h.insert_path hk hw
      have hb : l.kind ≠ .blank := by simp [hk]
      refine ⟨_, hp, ?_⟩
      rw [kinds_append, kinds_append, kinds_cons hb, hk]
      rfl
    · refine ⟨_, h.insert_blanks (fun l hl hk => hp ⟨l, hl, hk⟩) hw hs ne he, ?_⟩
      rw [kinds_append, kinds_blanks, List.append_nil]

end

/-- **Blanks can be put in** between the lexemes of an accepted text, and spaces at its end. -/
theorem check_insert_blanks {t w : Text} {k : Nat} (h : check t = .accepted)
    (hk : k ∈ boundaries t) (hw : ∀ c ∈ w, c.isWhitespace) (hs : ' ' ∈ w → k = t.length) :
    check (t.take k ++ w ++ t.drop k) = .accepted := by
  obtain ⟨hx, he⟩ := lexes_of_accepted h
  obtain ⟨a, b, hr, rfl⟩ := exists_append_of_mem_boundaries hx hk
  rw [hr] at hx he
  obtain ⟨u, s, rfl, hlen, ha, hb⟩ := hx.cut
  rw [← hlen, List.take_left, List.drop_left, List.append_assoc]
  have hsp : ' ' ∈ w → s = [] := by
    intro hw
    have := hs hw
    simpa [← hlen] using this
  have hend : s = [] → ∀ k ∈ (kinds a).getLast?, k.mayEnd := by
    rintro rfl
    obtain rfl := hb.eq_nil
    rw [List.append_nil] at he
    exact he.mayEnd
  obtain ⟨a', ha', hk'⟩ := ha.insert hw hsp hend
  refine accepted_of_lexes (ha'.append hb) ?_
  rwa [kinds_append, hk', ← kinds_append]

/-- A tab behind a path is part of the path. -/
theorem check_insert_tab_behind_path :
    check "max(./a,1) or 2".toList = .accepted ∧ 7 ∈ boundaries "max(./a,1) or 2".toList ∧
      check "max(./a\t,1) or 2".toList = .accepted := by
  have h : check "max(./a,1) or 2".toList = .accepted := by decide +kernel
  have hk : 7 ∈ boundaries "max(./a,1) or 2".toList := by decide +kernel
  exact ⟨h, hk, check_insert_blanks h hk (List.forall_mem_singleton.mpr rfl) (by decide)⟩

/-- A space before a name can make an operator of it. -/
example : check "or (1)".toList = .accepted ∧
    check " or (1)".toList = .rejected ⟨0, .unexpected .operator⟩ := by
  decide +kernel

end RuleCheck
