import RuleCheck.Text.Basic

/-!
# Text — quoted for a log

A text between double quotes, with the characters escaped that would make a line of a log hard to
read: the quote, the backslash, the control characters, and behind ASCII whatever has no shape of
its own.  Four of the control characters have letters; the others are written with their code point
in hexadecimal, as all the rest is.

Which characters behind ASCII have a shape of their own, a version of Unicode says, so a log goes by
its tables (`Unicode`).
-/

namespace RuleCheck

/-- What a version of Unicode says of the characters from U+007F on, as far as a log asks. -/
structure Unicode where
  /-- The property `Grapheme_Extend`: the character is a mark on the one before it. -/
  isGraphemeExtend : Char → Bool
  /-- Whether the character is assigned, and is neither a separator nor a control, format, surrogate
  or private use character. -/
  isPrintable : Char → Bool

namespace Text

/-- Whether a character stands in a log as it is. -/
def isShown (u : Unicode) (c : Char) : Bool :=
  if c.toNat < 0x20 then false
  else if c.toNat < 0x7F then true
  else !u.isGraphemeExtend c && u.isPrintable c

/-- A character as it stands between double quotes. -/
def escaped (u : Unicode) (c : Char) : Text :=
  match c with
  | '"'    => ['\\', '"']
  | '\\'   => ['\\', '\\']
  | '\x00' => ['\\', '0']
  | '\t'   => ['\\', 't']
  | '\n'   => ['\\', 'n']
  | '\r'   => ['\\', 'r']
  | c      =>
      if isShown u c then [c]
      else ['\\', 'u', '\x7b'] ++ Nat.toDigits 16 c.toNat ++ ['\x7d']

def quoted (u : Unicode) (t : Text) : Text := ['"'] ++ t.flatMap (escaped u) ++ ['"']

end Text

end RuleCheck
