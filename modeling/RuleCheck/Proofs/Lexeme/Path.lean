import Mathlib.Computability.Language
import RuleCheck.Proofs.Lexeme.Recognition
import RuleCheck.Proofs.Text.Line
import RuleCheck.Proofs.Text.Span

/-!
# Proofs — Lexeme — paths

A path is a dot and segments, each behind a slash and none of them empty (`IsPath`).  Told by its
slashes, it has no two of them side by side and none at its end (`isPath_iff_tight`).  With the
characters that end a path left out, these are the texts of the pattern `\.(/[^/(),]+)+`
(`mem_pathPattern_iff`).

**A path is the whole row of characters up to a parenthesis or a comma, or there is none**
(`recognize_path`): no shorter path is looked for in a row that is none.
-/

namespace RuleCheck

open Form (isPathChar)
open scoped Computability

/-- A dot and segments, each behind a slash. -/
def IsPath (w : Text) : Prop :=
  ∃ ss : List Text, ss ≠ [] ∧ (∀ s ∈ ss, s ≠ [] ∧ '/' ∉ s) ∧ w = '.' :: ss.flatMap ('/' :: ·)

/-! ### The pieces between slashes -/

theorem cons_intercalate (c : Char) (s : Text) (ss : List Text) :
    c :: [c].intercalate (s :: ss) = (s :: ss).flatMap (c :: ·) := by
  induction ss generalizing s with
  | nil => simp
  | cons s' ss ih =>
      rw [List.intercalate_cons_cons, List.flatMap_cons, ← ih s']
      simp

/-- A text is its pieces, each behind a mark but the first. -/
theorem flatMap_splitOn (c : Char) (t : Text) : (t.splitOn c).flatMap (c :: ·) = c :: t := by
  cases h : t.splitOn c with
  | nil => exact absurd h (List.splitOn_ne_nil c t)
  | cons s ss => rw [← cons_intercalate, ← h, List.intercalate_splitOn]

/-- Pieces without the mark are the pieces of what they make up. -/
theorem splitOn_of_flatMap {c : Char} {ss : List Text} {t : Text} (ne : ss ≠ [])
    (hss : ∀ s ∈ ss, c ∉ s) (h : ss.flatMap (c :: ·) = c :: t) : t.splitOn c = ss := by
  cases ss with
  | nil => contradiction
  | cons s ss =>
      rw [← cons_intercalate] at h
      obtain rfl := (List.cons.inj h).2
      exact List.splitOn_intercalate c hss ne

/-- **The segments of a path are the pieces between its slashes.** -/
theorem isPath_iff_splitOn {t : Text} :
    IsPath ('.' :: '/' :: t) ↔ ∀ s ∈ t.splitOn '/', s ≠ [] := by
  constructor
  · rintro ⟨ss, ne, hss, h⟩
    rw [splitOn_of_flatMap ne (fun s hs => (hss s hs).2) (List.cons.inj h).2.symm]
    exact fun s hs => (hss s hs).1
  · intro h
    refine ⟨t.splitOn '/', List.splitOn_ne_nil '/' t, fun s hs => ⟨h s hs, ?_⟩, ?_⟩
    · exact Text.notMem_of_mem_splitOn hs
    · rw [flatMap_splitOn]

/-! ### Slashes side by side -/

theorem splitOn_cons_self (c : Char) (t : Text) : (c :: t).splitOn c = [] :: t.splitOn c :=
  List.splitOn_append_cons_self_of_not_mem List.not_mem_nil t

theorem splitOn_cons_of_ne {c d : Char} (h : d ≠ c) (t : Text) :
    (d :: t).splitOn c = (t.splitOn c).modifyHead (d :: ·) := by
  rw [List.splitOn_cons_eq_if_modifyHead, if_neg (by simpa using h)]

/-- The pieces behind the slashes of a text are none of them empty exactly if no two slashes are
side by side and none is the last character. -/
theorem forall_mem_tail_splitOn_iff {t : Text} :
    (∀ s ∈ (t.splitOn '/').tail, s ≠ []) ↔ ¬ ['/', '/'] <:+: t ∧ t.getLast? ≠ some '/' := by
  induction t with
  | nil => simp
  | cons d t ih =>
      by_cases hd : d = '/'
      · subst hd
        rw [splitOn_cons_self, List.tail_cons]
        cases t with
        | nil => simp
        | cons c t =>
            by_cases hc : c = '/'
            · -- nothing is between the two slashes
              subst hc
              simp [splitOn_cons_self, List.infix_cons_iff]
            · have hp : ∃ p ps, (c :: t).splitOn '/' = (c :: p) :: ps := by
                rw [splitOn_cons_of_ne hc]
                cases h : t.splitOn '/' with
                | nil => exact absurd h (List.splitOn_ne_nil '/' t)
                | cons p ps => exact ⟨p, ps, rfl⟩
              obtain ⟨p, ps, hp⟩ := hp
              rw [hp, List.tail_cons] at ih
              simp [hp, ih, List.infix_cons_iff (a := '/'), Ne.symm hc]
      · have hl : (d :: t).getLast? = some '/' ↔ t.getLast? = some '/' := by
          cases t <;> simp [hd]
        have hi : ['/', '/'] <:+: d :: t ↔ ['/', '/'] <:+: t := by
          simp [List.infix_cons_iff (a := d), Ne.symm hd]
        rw [splitOn_cons_of_ne hd, List.tail_modifyHead, ih, hi, ne_eq, ne_eq, hl]

/-- **A path is told by its slashes**: no two are side by side, and none is the last character. -/
theorem isPath_iff_tight {t : Text} :
    IsPath ('.' :: '/' :: t) ↔
      ¬ ['/', '/'] <:+: '.' :: '/' :: t ∧ ('.' :: '/' :: t).getLast? ≠ some '/' := by
  have ht := forall_mem_tail_splitOn_iff (t := '/' :: t)
  rw [splitOn_cons_self, List.tail_cons] at ht
  rw [isPath_iff_splitOn, ht]
  simp [List.infix_cons_iff (a := '.')]

/-! ### The pattern -/

/-- The texts of the pattern `/[^/(),]+`. -/
def segmentPattern : Language Char :=
  {w | ∃ s : Text, s ≠ [] ∧ (∀ c ∈ s, c ∉ "/(),".toList) ∧ w = '/' :: s}

/-- The texts of the pattern `\.(/[^/(),]+)+`. -/
def pathPattern : Language Char := {['.']} * (segmentPattern * segmentPattern∗)

theorem notMem_iff_isPathChar {c : Char} : c ∉ "/(),".toList ↔ c ≠ '/' ∧ isPathChar c := by
  simp [isPathChar, and_assoc]

/-- Texts of the pattern of a segment are segments behind slashes. -/
theorem exists_segments {ws : List Text} (h : ∀ w ∈ ws, w ∈ segmentPattern) :
    ∃ ss : List Text, ws = ss.map ('/' :: ·) ∧
      ∀ s ∈ ss, s ≠ [] ∧ ∀ c ∈ s, c ∉ "/(),".toList := by
  induction ws with
  | nil => exact ⟨[], rfl, by simp⟩
  | cons w ws ih =>
      obtain ⟨⟨s, ne, hs, rfl⟩, hws⟩ := List.forall_mem_cons.mp h
      obtain ⟨ss, rfl, hss⟩ := ih hws
      exact ⟨s :: ss, rfl, List.forall_mem_cons.mpr ⟨⟨ne, hs⟩, hss⟩⟩

/-- **The texts of the pattern are the paths** in which no character ends a path. -/
theorem mem_pathPattern_iff {w : Text} :
    w ∈ pathPattern ↔ IsPath w ∧ ∀ c ∈ w, isPathChar c := by
  constructor
  · intro h
    obtain ⟨_, rfl, v, hv, rfl⟩ := Language.mem_mul.mp h
    obtain ⟨x, hx, y, hy, rfl⟩ := Language.mem_mul.mp hv
    obtain ⟨ws, rfl, hws⟩ := Language.mem_kstar.mp hy
    obtain ⟨ss, hmap, hss⟩ := exists_segments (List.forall_mem_cons.mpr ⟨hx, hws⟩)
    have hv : x ++ ws.flatten = ss.flatMap ('/' :: ·) := by
      rw [← List.flatten_cons, hmap, List.flatMap_def]
    simp only [notMem_iff_isPathChar] at hss
    rw [hv]
    refine ⟨⟨ss, ?_, fun s hs => ⟨(hss s hs).1, fun hc => ((hss s hs).2 _ hc).1 rfl⟩, rfl⟩, ?_⟩
    · rintro rfl
      cases hmap
    · intro c hc
      rcases List.mem_cons.mp hc with rfl | hc
      · rfl
      obtain ⟨s, hs, hc⟩ := List.mem_flatMap.mp hc
      rcases List.mem_cons.mp hc with rfl | hc
      · rfl
      exact ((hss s hs).2 c hc).2
  · rintro ⟨⟨ss, ne, hss, rfl⟩, hw⟩
    have hseg : ∀ s ∈ ss, '/' :: s ∈ segmentPattern := fun s hs =>
      ⟨s, (hss s hs).1, fun c hc => notMem_iff_isPathChar.mpr ⟨?_, hw c ?_⟩, rfl⟩
    · cases ss with
      | nil => contradiction
      | cons s ss =>
          obtain ⟨hs, hss⟩ := List.forall_mem_cons.mp hseg
          refine Language.mem_mul.mpr ⟨['.'], rfl, _, ?_, rfl⟩
          refine Language.mem_mul.mpr ⟨'/' :: s, hs, ss.flatMap ('/' :: ·), ?_, rfl⟩
          refine Language.mem_kstar.mpr ⟨ss.map ('/' :: ·), List.flatMap_def .., ?_⟩
          simpa using hss
    · rintro rfl
      exact (hss s hs).2 hc
    · exact List.mem_cons_of_mem _ (List.mem_flatMap.mpr ⟨s, hs, List.mem_cons_of_mem _ hc⟩)

/-! ### Paths at a place -/

namespace Form

variable {t : Text}

theorem readPath_of_isPath (ht : "./".toList <+: t) (h : IsPath (t.takeWhile isPathChar)) :
    readPath t =
      .lexeme ⟨.path (t.takeWhile isPathChar), (t.takeWhile isPathChar).length⟩ := by
  obtain ⟨t, rfl⟩ := ht
  have hs : ((t.takeWhile isPathChar).splitOn '/').all (· ≠ []) := by
    simpa using isPath_iff_splitOn.mp h
  exact if_pos hs

theorem readPath_of_not_isPath (h : ¬ ("./".toList <+: t ∧ IsPath (t.takeWhile isPathChar))) :
    readPath t = .nothing := by
  rw [readPath.eq_def]
  split
  · rename_i t
    have hs : ¬ ((t.takeWhile isPathChar).splitOn '/').all (· ≠ []) := fun hs =>
      h ⟨⟨t, rfl⟩, isPath_iff_splitOn.mpr (by simpa using hs)⟩
    exact if_neg hs
  · rfl

theorem recognize_path_of_isPath {p : Place} (hp : "./".toList <+: p.ahead)
    (h : IsPath (p.ahead.takeWhile isPathChar)) :
    path.recognize p = .ok (some ⟨.path (p.ahead.takeWhile isPathChar),
      (p.ahead.takeWhile isPathChar).length⟩) := by
  rw [recognize_eq, read, readPath_of_isPath hp h]
  rfl

theorem recognize_path_of_not_isPath {p : Place}
    (h : ¬ ("./".toList <+: p.ahead ∧ IsPath (p.ahead.takeWhile isPathChar))) :
    path.recognize p = .ok none := by
  rw [recognize_eq, read, readPath_of_not_isPath h]
  rfl

end Form

/-- **A path is all that comes before a parenthesis or a comma, or there is none.**  What is found
is the whole row of characters up to there, if it is a dot and segments that are not empty, each
behind a slash; this is to match the pattern, and to begin with `./`, have no two slashes side by
side and none at the end. -/
theorem recognize_path (p : Place) :
    let run := p.ahead.takeWhile isPathChar
    (∀ l, Form.path.recognize p = .ok (some l) ↔
        "./".toList <+: p.ahead ∧ IsPath run ∧ l = ⟨.path run, run.length⟩) ∧
      (Form.path.recognize p = .ok none ↔ ¬ ("./".toList <+: p.ahead ∧ IsPath run)) ∧
      (IsPath run ↔ run ∈ pathPattern) ∧
      ("./".toList <+: p.ahead ∧ IsPath run ↔
        "./".toList <+: p.ahead ∧ ¬ ['/', '/'] <:+: run ∧ run.getLast? ≠ some '/') := by
  intro run
  refine ⟨fun l => ⟨fun h => ?_, ?_⟩, ⟨?_, Form.recognize_path_of_not_isPath⟩, ?_, ?_⟩
  · by_cases hp : "./".toList <+: p.ahead ∧ IsPath run
    · rw [Form.recognize_path_of_isPath hp.1 hp.2] at h
      cases h
      exact ⟨hp.1, hp.2, rfl⟩
    · rw [Form.recognize_path_of_not_isPath hp] at h
      cases h
  · rintro ⟨hp, hr, rfl⟩
    exact Form.recognize_path_of_isPath hp hr
  · rintro h ⟨hp, hr⟩
    rw [Form.recognize_path_of_isPath hp hr] at h
    cases h
  · rw [mem_pathPattern_iff, and_iff_left fun _ => List.mem_takeWhile_imp]
  · refine and_congr_right fun ⟨t, ht⟩ => ?_
    have hr : run = '.' :: '/' :: t.takeWhile isPathChar := by
      simp only [run, ← ht]
      rfl
    rw [hr, isPath_iff_tight]

/-- Blanks, quotes and an operator in the segments of a path, which a comma ends. -/
example : Form.path.recognize ((Place.start "f(./a b/'\n==/ or ,1)".toList).advance 2) =
    .ok (some ⟨.path "./a b/'\n==/ or ".toList, 15⟩) := by decide

end RuleCheck
