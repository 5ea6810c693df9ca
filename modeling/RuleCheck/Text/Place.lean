import RuleCheck.Text.Basic

/-!
# Text — places

A place in a text is what lies behind it, nearest character first, and what lies ahead.  Every
such pair is a place, so no operation needs to check its bounds: advancing stops at the end of
the text, and looking past the end finds nothing.

The text never changes (`text_advance`), the column is the sum of the advances up to the length of
the text (`column_advance`), and what lies ahead is the text less its first `column` characters
(`ahead_eq_drop`).
-/

namespace RuleCheck

structure Place where
  behind : Text
  ahead : Text
deriving DecidableEq

namespace Place

def start (t : Text) : Place := ⟨[], t⟩

def text (p : Place) : Text := p.behind.reverse ++ p.ahead

def column (p : Place) : Nat := p.behind.length

/-- The length of the whole text. -/
def size (p : Place) : Nat := p.text.length

def atEnd (p : Place) : Bool := p.ahead.isEmpty

/-- The character `offset` places ahead. -/
def peek? (p : Place) (offset : Nat) : Option Char := p.ahead[offset]?

/-- The place `n` characters on, or the end of the text. -/
def advance (p : Place) (n : Nat) : Place := ⟨(p.ahead.take n).reverse ++ p.behind, p.ahead.drop n⟩

/-- The text from a column, counted from its beginning, to its end. -/
def textFrom (p : Place) (column : Nat) : Text := p.text.drop column

/-- Whether a text stands right ahead; the empty text stands nowhere. -/
def startsWith (p : Place) (t : Text) : Bool := !t.isEmpty && t.isPrefixOf p.ahead

/-- At most `size` characters, from `offset` places ahead. -/
def slice (p : Place) (offset size : Nat) : Text := (p.ahead.drop offset).take size

/-- How many characters satisfy `q` in a row, from `offset` places ahead. -/
def runLength (p : Place) (offset : Nat) (q : Char → Bool) : Nat :=
  ((p.ahead.drop offset).takeWhile q).length

@[simp] theorem text_start (t : Text) : (start t).text = t := rfl

@[simp] theorem column_start (t : Text) : (start t).column = 0 := rfl

@[simp] theorem ahead_start (t : Text) : (start t).ahead = t := rfl

theorem size_eq (p : Place) : p.size = p.column + p.ahead.length := by
  simp [size, text, column]

theorem column_le_size (p : Place) : p.column ≤ p.size := by
  simp [size_eq]

theorem ahead_eq_drop (p : Place) : p.ahead = p.text.drop p.column := by
  simp [text, column]

@[simp] theorem text_advance (p : Place) (n : Nat) : (p.advance n).text = p.text := by
  simp [text, advance]

@[simp] theorem ahead_advance (p : Place) (n : Nat) : (p.advance n).ahead = p.ahead.drop n := rfl

theorem column_advance (p : Place) (n : Nat) :
    (p.advance n).column = min (p.column + n) p.size := by
  simp [column, advance, size, text]
  omega

theorem advance_advance (p : Place) (m n : Nat) : (p.advance m).advance n = p.advance (m + n) := by
  simp [advance, List.take_add]

end Place

end RuleCheck
