import RuleCheck.Text.Basic

/-!
# Text — lines

A line ends at a line feed, and a carriage return right before that line feed belongs to the
ending.  What follows the last line feed is a line of its own, carriage returns included, unless
it is empty.
-/

namespace RuleCheck.Text

/-- A line less the carriage return that belongs to its ending. -/
def withoutReturn (l : Text) : Text := if l.getLast? = some '\r' then l.dropLast else l

/-- The lines of the pieces between line feeds. -/
def linesOfPieces : List Text → List Text
  | []      => []
  | [p]     => if p = [] then [] else [p]
  | p :: ps => withoutReturn p :: linesOfPieces ps

def lines (t : Text) : List Text := linesOfPieces (t.splitOn '\n')

theorem lines_of_notMem {l : Text} (h : '\n' ∉ l) (ne : l ≠ []) : lines l = [l] := by
  simp [lines, List.splitOn_eq_singleton h, linesOfPieces, ne]

theorem lines_append_cons {l t : Text} (h : '\n' ∉ l) :
    lines (l ++ '\n' :: t) = withoutReturn l :: lines t := by
  have ne := List.splitOn_ne_nil '\n' t
  cases hs : t.splitOn '\n' with
  | nil => exact absurd hs ne
  | cons p ps => simp [lines, List.splitOn_append_cons_self_of_not_mem h, hs, linesOfPieces]

end RuleCheck.Text
