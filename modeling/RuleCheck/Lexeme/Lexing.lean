import RuleCheck.Lexeme.Form

/-!
# Lexeme — texts as rows of lexemes

The lexing of a text is the row of lexemes that it begins with, without any grammar, and the rest
where no lexeme begins.  A text is wholly lexical when nothing is left (`lexemes?`).
-/

namespace RuleCheck

structure Lexing where
  lexemes : List Lexeme
  rest : Text
deriving DecidableEq, Repr

/-- The lexing with one lexeme more at its beginning. -/
def Lexing.cons (l : Lexeme) (x : Lexing) : Lexing := ⟨l :: x.lexemes, x.rest⟩

def lexing (t : Text) : Lexing :=
  match _h : read t with
  | .lexeme l => (lexing (t.drop l.width)).cons l
  | _         => ⟨[], t⟩
termination_by t.length
decreasing_by
  have := width_pos _h
  have := width_le_length _h
  simp only [List.length_drop]
  omega

/-- The lexemes of a text that consists of lexemes. -/
def lexemes? (t : Text) : Option (List Lexeme) :=
  if (lexing t).rest = [] then some (lexing t).lexemes else none

/-- The lexemes of a row, each with its column; the row begins at `column`. -/
def placed (column : Nat) : List Lexeme → List (Nat × Lexeme)
  | []     => []
  | l :: r => (column, l) :: placed (column + l.width) r

/-- The number of characters that the lexemes of a row take. -/
def totalWidth : List Lexeme → Nat
  | []     => 0
  | l :: r => l.width + totalWidth r

/-- The lexemes of a row that are no blanks. -/
def significant (r : List Lexeme) : List Lexeme := r.filter (·.kind ≠ .blank)

/-- The kinds of the lexemes of a row that are no blanks. -/
def kinds (r : List Lexeme) : List Kind := (significant r).map Lexeme.kind

theorem lexing_of_lexeme {t : Text} {l : Lexeme} (h : read t = .lexeme l) :
    lexing t = (lexing (t.drop l.width)).cons l := by
  rw [lexing]
  split <;> simp_all

theorem lexing_of_ne {t : Text} (h : ∀ l, read t ≠ .lexeme l) : lexing t = ⟨[], t⟩ := by
  rw [lexing]
  split <;> simp_all

end RuleCheck
