import RuleCheck.Text.Escape

/-!
# Lexeme — string literals

A string literal stands between single quotes.  Its body ends at the first quote that does not come
right after a backslash (`body?`), whatever that backslash means: a body that should end in a
backslash cannot be written as `\\`, only as `\u005c`.

A body is a row of units, each of which stands for one character (`IsUnit`): a character other than
a backslash, a backslash with a quote or with one of the letters of `Text.letter?`, or a backslash
with `u` and the four hexadecimal digits of a code point that is a character.  `decode` reads them
from the left and stops at the first backslash that begins no unit.  `encode` writes a body for a
text.
-/

namespace RuleCheck.Literal

/-- The text up to the closing quote; `escaping` says that a backslash comes right before it. -/
def bodyFrom (escaping : Bool) : Text → Option Text
  | []     => none
  | c :: t =>
      if c = '\'' ∧ escaping = false then some []
      else (bodyFrom (c = '\\') t).map (c :: ·)

/-- The body of a literal, from the text after the opening quote. -/
def body? (t : Text) : Option Text := bodyFrom false t

/-- The character that a backslash and the character after it stand for. -/
def meaning? (c : Char) : Option Char := if c = '\'' then some c else Text.letter? c

/-- A unit of a body and the character that it stands for. -/
inductive IsUnit : Text → Char → Prop where
  | plain {c : Char} (h : c ≠ '\\') : IsUnit [c] c
  | letter {c x : Char} (h : meaning? c = some x) : IsUnit ['\\', c] x
  | code {a b c d x : Char} (h : Text.codePoint? a b c d = some x) :
      IsUnit ['\\', 'u', a, b, c, d] x

/-- A body and the text that it stands for. -/
inductive Denotes : Text → Text → Prop where
  | nil : Denotes [] []
  | cons {u raw t : Text} {x : Char} (h : IsUnit u x) (r : Denotes raw t) :
      Denotes (u ++ raw) (x :: t)

/-- An escape that stands for nothing: where its backslash is, and what follows the backslash. -/
structure BadEscape where
  offset : Nat
  sequence : Text
deriving DecidableEq, Repr

/-- What a body stands for.  Places are counted on from `offset`. -/
def decode (offset : Nat) : Text → Except BadEscape Text
  | [] => .ok []
  | '\\' :: 'u' :: a :: b :: c :: d :: t =>
      match Text.codePoint? a b c d with
      | some x => (decode (offset + 6) t).map (x :: ·)
      | none   => .error ⟨offset, ['u', a, b, c, d]⟩
  | '\\' :: 'u' :: t => .error ⟨offset, 'u' :: t⟩
  | '\\' :: c :: t =>
      match meaning? c with
      | some x => (decode (offset + 2) t).map (x :: ·)
      | none   => .error ⟨offset, [c]⟩
  | ['\\'] => .error ⟨offset, []⟩
  | c :: t => (decode (offset + 1) t).map (c :: ·)

/-- A body that stands for the text: each quote behind a backslash, each backslash as `backslash`,
and all else as it is. -/
def encode (backslash : Text) (t : Text) : Text :=
  t.flatMap fun c => if c = '\\' then backslash else if c = '\'' then ['\\', '\''] else [c]

/-- The literal with the body `raw`. -/
def enclose (raw : Text) : Text := '\'' :: raw ++ ['\'']

theorem length_lt_of_bodyFrom {escaping : Bool} {t raw : Text}
    (h : bodyFrom escaping t = some raw) : raw.length < t.length := by
  induction t generalizing escaping raw with
  | nil => simp [bodyFrom] at h
  | cons c t ih =>
      simp only [bodyFrom] at h
      split at h
      · simp_all
      · obtain ⟨u, hu, rfl⟩ := Option.map_eq_some_iff.mp h
        simpa using ih hu

end RuleCheck.Literal
