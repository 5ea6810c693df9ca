import RuleCheck.Proofs.Grammar.Enclosure
import RuleCheck.Proofs.Scan.Insertion

/-!
# Proofs — Scan — references

A reference is a variable or a path.  A path belongs directly into the arguments of a call, and so
does a variable, unless it is in no parentheses at all (`InCall`).

**In an accepted text they are where they belong, but for those behind a comma**
(`reference_in_call`).  Behind a comma they can come wherever it stands (`check_insert_reference`),
in a group too, and a path at the top (`reference_outside_call`).
-/

namespace RuleCheck

/-- Whether a kind, if it is a reference, belongs where it comes behind a row of others. -/
def InCall (a : List Kind) (k : Kind) : Prop :=
  (k = .path → (Enclosure.ofKinds a).calls.head? = some true) ∧
    (k = .var → (Enclosure.ofKinds a).calls.head? ≠ some false)

instance (a : List Kind) (k : Kind) : Decidable (InCall a k) := inferInstanceAs (Decidable (_ ∧ _))

/-- **References stand directly in calls** where they are not behind a comma. -/
theorem reference_in_call {t : Text} {a b : List Kind} {k : Kind} (h : check t = .accepted)
    (hk : kinds (lexing t).lexemes = a ++ k :: b) (hc : a.getLast? ≠ some .comma) : InCall a k := by
  obtain ⟨-, he⟩ := lexes_of_accepted h
  have hb : .blank ∉ a := fun hm => ne_blank_of_mem_kinds (hk ▸ List.mem_append_left _ hm) rfl
  rw [hk] at he
  refine ⟨?_, ?_⟩
  · rintro rfl
    rcases he.calls_head?_of_isReference hb rfl hc with ⟨-, h⟩ | h
    · cases h
    · exact h
  · rintro rfl
    rcases he.calls_head?_of_isReference hb rfl hc with ⟨rfl, -⟩ | h
    · nofun
    · simp [h]

/-- In the arguments of the inner call, behind a group. -/
theorem reference_in_call_behind_group :
    check "f((1), g(./p))".toList = .accepted ∧
      kinds (lexing "f((1), g(./p))".toList).lexemes =
        [.function, .leftParen, .leftParen, .number, .rightParen, .comma, .function, .leftParen] ++
          .path :: [.rightParen, .rightParen] ∧
      InCall [.function, .leftParen, .leftParen, .number, .rightParen, .comma, .function,
        .leftParen] .path := by
  have h : check "f((1), g(./p))".toList = .accepted := by decide +kernel
  have hk : kinds (lexing "f((1), g(./p))".toList).lexemes =
      [.function, .leftParen, .leftParen, .number, .rightParen, .comma, .function, .leftParen] ++
        .path :: [.rightParen, .rightParen] := by decide +kernel
  exact ⟨h, hk, reference_in_call h hk (by decide)⟩

/-- Behind commas a path and a variable stand in a group, and a path at the top. -/
theorem reference_outside_call :
    check "(1,./a,$A),./b".toList = .accepted ∧
      kinds (lexing "(1,./a,$A),./b".toList).lexemes =
        [.leftParen, .number, .comma, .path, .comma, .var, .rightParen, .comma, .path] ∧
      ¬ InCall [.leftParen, .number, .comma] .path ∧
      ¬ InCall [.leftParen, .number, .comma, .path, .comma] .var ∧
      ¬ InCall [.leftParen, .number, .comma, .path, .comma, .var, .rightParen, .comma] .path := by
  decide +kernel

/-! ### Behind a comma -/

theorem ne_blank_of_isReference {k : Kind} (hk : k.isReference) : k ≠ .blank := by
  rintro rfl
  cases hk

/-- No operator has the first character of a reference in it. -/
theorem Spells.apart_of_isReference {k : Token} {w : Text} (hs : Spells k w)
    (hk : k.kind.isReference) (t : Text) : Apart (w ++ t) := by
  intro c hc op
  cases hs with
  | var | path =>
      cases hc
      cases op <;> decide
  | _ => cases hk

/-- Behind a row that ends with a comma a reference and a comma come as lexemes of their own. -/
theorem Lexes.insert_reference {u s w : Text} {r : List Lexeme} {l : Lexeme} {k : Token}
    (h : Lexes (u ++ s) (r ++ [l]) s) (hc : l.kind = .comma) (ne : s ≠ []) (hs : Spells k w)
    (hk : k.kind.isReference) :
    Lexes (u ++ (w ++ ',' :: s)) (r ++ [l] ++ [⟨k, w.length⟩, ⟨.comma, 1⟩]) s := by
  have hb : k.kind ≠ .blank := ne_blank_of_isReference hk
  have hr : Lexes (u ++ (w ++ ',' :: s)) (r ++ [l]) (w ++ ',' :: s) := by
    refine h.replace ne (hs.apart_of_isReference hk _) fun j hj _ v => ?_
    obtain rfl : l = j := by simpa using hj
    obtain ⟨k, n⟩ := l
    cases k with
    | comma => trivial
    | _ => cases hc
  have hs : Lexes (w ++ ',' :: s) [⟨k, w.length⟩, ⟨.comma, 1⟩] s :=
    .spell hs (clear_of_stop (.inr rfl) hb) (.spell (w := [',']) .comma trivial (.nil s))
  exact hr.append hs

/-- **Behind a comma any reference can be put in**, and a comma behind it, whatever encloses the
place. -/
theorem check_insert_reference {t w : Text} {c : Nat} {l : Lexeme} {k : Token}
    (h : check t = .accepted) (hl : (c, l) ∈ placed 0 (lexing t).lexemes) (hc : l.kind = .comma)
    (hs : Spells k w) (hk : k.kind.isReference) :
    check (t.take (c + l.width) ++ (w ++ ',' :: t.drop (c + l.width))) = .accepted := by
  obtain ⟨hx, he⟩ := lexes_of_accepted h
  obtain ⟨a, b, hr, rfl⟩ := mem_placed_iff.mp hl
  rw [hr, List.append_cons] at hx he
  obtain ⟨u, s, rfl, hlen, ha, hb⟩ := hx.cut
  have hw : 0 + totalWidth a + l.width = u.length := by
    rw [hlen, totalWidth_append, Nat.zero_add]
    rfl
  rw [hw, List.take_left, List.drop_left]
  have hlb : l.kind ≠ .blank := by simp [hc]
  have hka : kinds (a ++ [l]) = kinds a ++ [.comma] := by
    rw [kinds_append, kinds_cons hlb, hc, kinds_nil]
  rw [kinds_append, hka] at he
  have ne : s ≠ [] := by
    rintro rfl
    obtain rfl := hb.eq_nil
    cases he.mayEnd .comma (by simp)
  refine accepted_of_lexes ((ha.insert_reference hc ne hs hk).append hb) ?_
  rw [kinds_append, kinds_append, hka, kinds_cons (l := ⟨k, w.length⟩) (ne_blank_of_isReference hk),
    kinds_cons (l := ⟨.comma, 1⟩) nofun]
  simp only [List.append_assoc, List.cons_append, List.nil_append, kinds_nil] at he ⊢
  exact he.insert_reference hk

end RuleCheck
