import RuleCheck.Proofs.Grammar.Joining
import RuleCheck.Proofs.Scan.Compaction
import RuleCheck.Proofs.Scan.Insertion
import RuleCheck.Proofs.Scan.Wrapping

/-!
# Proofs — Scan — texts joined and split

**Accepted texts can be joined** by a comma, and by any operator if the first ends with an operand
and the second does not begin with a variable.  **At a comma in no parentheses an accepted text can
be split**, unless a path comes behind the comma, which is then the fault (`check_join_split`).

The lexemes of the first text are read again with the separator behind them, since a comma or an
operator ends whatever may come before it (`check_join`), and they are read again with nothing
behind them (`Lexes.truncate`).  What is behind the separator is there as it was.
-/

namespace RuleCheck

open Form (isWordChar)

/-! ### Joining -/

/-- A text of lexemes, a comma or an operator, and a text of lexemes. -/
theorem check_join {s t w : Text} {k : Token} (hs : check s = .accepted)
    (ht : check t = .accepted) (hw : Spells k w) (hc : Clear k w t) (hk : k.kind.isMark)
    (hl : ∀ l ∈ (lexing s).lexemes.getLast?, l.kind ≠ .blank → ∀ u, Clear l.token u (w ++ t))
    (he : IsExpression (kinds (lexing s).lexemes ++ k.kind :: kinds (lexing t).lexemes)) :
    check (s ++ (w ++ t)) = .accepted := by
  obtain ⟨hxs, hes⟩ := lexes_of_accepted hs
  obtain ⟨hxt, -⟩ := lexes_of_accepted ht
  have hb : k.kind ≠ .blank := by
    intro hb
    rw [hb] at hk
    cases hk
  have hv : ∀ c ∈ (w ++ t).head?, ¬ isWordChar c := hw.not_isWordChar_append (.inl hk) t
  refine accepted_of_lexes ((hxs.extend hes.mayEnd hv hl).append (.spell hw hc hxt)) ?_
  rwa [kinds_append, kinds_cons (l := ⟨k, w.length⟩) hb]

theorem ne_nil_of_accepted {t : Text} (h : check t = .accepted) : t ≠ [] := by
  rintro rfl
  obtain ⟨hx, he⟩ := lexes_of_accepted h
  exact he.ne_nil (by rw [hx.eq_nil]; rfl)

theorem check_join_comma {s t : Text} (hs : check s = .accepted) (ht : check t = .accepted) :
    check (s ++ ',' :: t) = .accepted := by
  refine check_join (w := [',']) hs ht .comma trivial rfl
    (fun l _ hb u => clear_of_stop (.inr rfl) hb) ?_
  exact (lexes_of_accepted hs).2.join_comma (lexes_of_accepted ht).2 (blank_notMem_kinds _)
    (blank_notMem_kinds _)

/-- An operator ends whatever operand comes before it. -/
theorem clear_operator {k : Token} {op : Operator} {w t : Text} (hk : k.kind.endsOperand) :
    Clear k w (op.spelling ++ t) := by
  have hop := Spells.operator op
  have hne : op.spelling ++ t ≠ [] := by simp [hop.ne_nil]
  refine clear_of_not_isWordChar ?_ ?_ (fun _ => hne) (hop.not_isWordChar_append (.inl rfl) t)
  · intro hb
    rw [hb] at hk
    cases hk
  · intro hp
    rw [hp] at hk
    cases hk

theorem check_join_operator {s t : Text} (op : Operator) (hs : check s = .accepted)
    (ht : check t = .accepted) (he : EndsOperand (kinds (lexing s).lexemes))
    (hv : ∀ p ∈ leading? t, p.2.kind ≠ .var) : check (s ++ op.spelling ++ t) = .accepted := by
  rw [List.append_assoc]
  refine check_join hs ht (.operator op) (fun _ => ne_nil_of_accepted ht) rfl
    (fun l hl hb u => ?_) ?_
  · obtain ⟨k, hk, hke⟩ := he
    obtain rfl := Option.some.inj (hk.symm.trans (getLast?_kinds hl hb))
    exact clear_operator hke
  · exact (lexes_of_accepted hs).2.join_operator (lexes_of_accepted ht).2 (blank_notMem_kinds _) he
      (head?_kinds_ne hv)

/-! ### Splitting -/

/-- A row of lexemes whose last kind may end an expression is read again with nothing behind it. -/
theorem Lexes.truncate {u s : Text} {r : List Lexeme} (h : Lexes (u ++ s) r s) (ne : s ≠ [])
    (he : ∀ k ∈ (kinds r).getLast?, k.mayEnd) : Lexes u r [] := by
  have := h.replace (v := []) ne nofun fun l hl hb w => clear_nil (he _ (getLast?_kinds hl hb))
  rwa [List.append_nil] at this

theorem exists_cons_of_read_comma {s : Text} {l : Lexeme} (h : read s = .lexeme l)
    (hc : l.kind = .comma) : ∃ x, s = ',' :: x ∧ l.width = 1 := by
  obtain ⟨k, n⟩ := l
  obtain ⟨w, x, rfl, rfl, hs, -⟩ := stands_of_read h
  cases hs with
  | comma => exact ⟨x, rfl, rfl⟩
  | _ => cases hc

section
variable {t : Text} {a b : List Lexeme} {l : Lexeme} (h : check t = .accepted)
  (hr : (lexing t).lexemes = a ++ l :: b) (hc : l.kind = .comma)
include h hr hc

/-- The text is cut at the comma into the lexemes before it and those behind it. -/
theorem exists_cut_at_comma :
    ∃ u x, t.take (totalWidth a) = u ∧ t.drop (totalWidth a + 1) = x ∧
      Lexes (u ++ ',' :: x) a (',' :: x) ∧ Lexes x b [] ∧
      IsExpression (kinds a ++ .comma :: kinds b) := by
  obtain ⟨hx, he⟩ := lexes_of_accepted h
  rw [hr] at hx he
  obtain ⟨u, s, rfl, hlen, ha, hs⟩ := hx.cut
  cases hs with
  | cons hl hb =>
      obtain ⟨x, rfl, hw⟩ := exists_cons_of_read_comma hl hc
      rw [hw, List.drop_succ_cons, List.drop_zero] at hb
      have hlb : l.kind ≠ .blank := by simp [hc]
      rw [kinds_append, kinds_cons hlb, hc] at he
      rw [← hlen, List.drop_length_add_append]
      exact ⟨u, x, List.take_left, rfl, ha, hb, he⟩

/-- A path comes first in no expression. -/
theorem check_behind_comma_of_path {p : Nat} {j : Lexeme}
    (hl : leading? (t.drop (totalWidth a + 1)) = some (p, j)) (hj : j.kind = .path) :
    check (t.drop (totalWidth a + 1)) = .rejected ⟨p, .unexpected .path⟩ := by
  obtain ⟨u, x, -, hx, -, hb, -⟩ := exists_cut_at_comma h hr hc
  rw [hx] at hl ⊢
  obtain ⟨c, d, hcd, hk, rfl⟩ := exists_append_of_find? hl
  rw [hb.lexemes_eq] at hcd
  rw [hcd] at hb
  have := check_of_misplaced hb (by rw [hk]; trivial) (by rw [hk, hj]; rfl)
  rwa [hj, ← Nat.zero_add (totalWidth c)] at this

variable (hd : (Nesting.ofKinds (kinds a)).depth = 0)
include hd

theorem check_before_comma : check (t.take (totalWidth a)) = .accepted := by
  obtain ⟨u, x, hu, -, ha, -, he⟩ := exists_cut_at_comma h hr hc
  have hea := he.before_comma hd (blank_notMem_kinds a)
  rw [hu]
  exact accepted_of_lexes (ha.truncate (List.cons_ne_nil _ _) hea.mayEnd) hea

theorem check_behind_comma (hp : ∀ p ∈ leading? (t.drop (totalWidth a + 1)), p.2.kind ≠ .path) :
    check (t.drop (totalWidth a + 1)) = .accepted := by
  obtain ⟨u, x, -, hx, -, hb, he⟩ := exists_cut_at_comma h hr hc
  rw [hx] at hp ⊢
  have hh := head?_kinds_ne hp
  rw [hb.lexemes_eq] at hh
  exact accepted_of_lexes hb (he.behind_comma hd (blank_notMem_kinds b) hh)

end

/-- **Accepted texts joined and split.**  A comma joins any two, and an operator joins one that ends
with an operand to one that begins with no variable.  A comma in no parentheses splits one in two,
but for a path behind the comma. -/
theorem check_join_split :
    (∀ s t : Text, check s = .accepted → check t = .accepted →
      check (s ++ ',' :: t) = .accepted ∧
        ∀ op : Operator, EndsOperand (kinds (lexing s).lexemes) →
          (∀ p ∈ leading? t, p.2.kind ≠ .var) → check (s ++ op.spelling ++ t) = .accepted) ∧
      ∀ (t : Text) (a b : List Lexeme) (l : Lexeme), check t = .accepted →
        (lexing t).lexemes = a ++ l :: b → l.kind = .comma →
        (Nesting.ofKinds (kinds a)).depth = 0 →
        check (t.take (totalWidth a)) = .accepted ∧
          ((∀ p ∈ leading? (t.drop (totalWidth a + 1)), p.2.kind ≠ .path) →
            check (t.drop (totalWidth a + 1)) = .accepted) ∧
          ∀ p j, leading? (t.drop (totalWidth a + 1)) = some (p, j) → j.kind = .path →
            check (t.drop (totalWidth a + 1)) = .rejected ⟨p, .unexpected .path⟩ := by
  refine ⟨fun s t hs ht => ⟨check_join_comma hs ht, fun op => check_join_operator op hs ht⟩, ?_⟩
  intro t a b l h hr hc hd
  exact ⟨check_before_comma h hr hc hd, check_behind_comma h hr hc hd,
    fun p j => check_behind_comma_of_path h hr hc⟩

/-- Two texts joined, and two split: a path behind the comma, and a comma in a group before it. -/
theorem check_join_split_path :
    check "'a' ".toList = .accepted ∧ check "or(2)".toList = .accepted ∧
      check "'a' ,or(2)".toList = .accepted ∧ check "'a'  or or(2)".toList = .accepted ∧
      check "f(), ./p".toList = .accepted ∧ check "f()".toList = .accepted ∧
      check " ./p".toList = .rejected ⟨1, .unexpected .path⟩ ∧
      check "(1,$A) ,3".toList = .accepted ∧ check "(1,$A) ".toList = .accepted ∧
      check "3".toList = .accepted := by
  have hs : check "'a' ".toList = .accepted := by decide +kernel
  have ht : check "or(2)".toList = .accepted := by decide +kernel
  have he : EndsOperand (kinds (lexing "'a' ".toList).lexemes) := ⟨.string, by decide +kernel, rfl⟩
  have hv : ∀ p ∈ leading? "or(2)".toList, p.2.kind ≠ .var := by decide +kernel
  obtain ⟨hj, hop⟩ := check_join_split.1 _ _ hs ht
  have hp : check "f(), ./p".toList = .accepted := by decide +kernel
  have hrp : (lexing "f(), ./p".toList).lexemes =
      [⟨.function ['f'], 1⟩, ⟨.leftParen, 1⟩, ⟨.rightParen, 1⟩] ++ ⟨.comma, 1⟩ ::
        [⟨.blank, 1⟩, ⟨.path "./p".toList, 3⟩] := by decide +kernel
  obtain ⟨hpb, -, hpa⟩ := check_join_split.2 _ _ _ _ hp hrp rfl rfl
  have hg : check "(1,$A) ,3".toList = .accepted := by decide +kernel
  have hrg : (lexing "(1,$A) ,3".toList).lexemes =
      [⟨.leftParen, 1⟩, ⟨.number 1, 1⟩, ⟨.comma, 1⟩, ⟨.var "$A".toList, 2⟩, ⟨.rightParen, 1⟩,
        ⟨.blank, 1⟩] ++ ⟨.comma, 1⟩ :: [⟨.number 3, 1⟩] := by decide +kernel
  obtain ⟨hgb, hga, -⟩ := check_join_split.2 _ _ _ _ hg hrg rfl rfl
  exact ⟨hs, ht, hj, hop .or he hv, hp, hpb, hpa 1 ⟨.path "./p".toList, 3⟩ (by decide +kernel) rfl,
    hg, hgb, hga (by decide +kernel)⟩

end RuleCheck
