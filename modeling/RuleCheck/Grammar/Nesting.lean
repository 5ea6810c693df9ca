import RuleCheck.Lexeme.Kind

/-!
# Grammar — nesting of parentheses

How deep a place is inside parentheses, and whether some parenthesis before it was closed that had
never been opened.  The depth may come back to zero after that; the parentheses are balanced only
if it never happened.

The depth is a number without bounds, so that what is said of texts is said of all of them.  A word
of 64 bits holds it in every text that is no longer than the largest word
(`Scan.wordNesting_iterate`).
-/

namespace RuleCheck

structure Nesting where
  /-- Parentheses opened less parentheses closed. -/
  depth : Int
  /-- Whether the depth was ever negative. -/
  underflow : Bool
deriving DecidableEq, Repr

namespace Nesting

def start : Nesting := ⟨0, false⟩

def enter (n : Nesting) : Nesting := { n with depth := n.depth + 1 }

def leave (n : Nesting) : Nesting :=
  { depth := n.depth - 1, underflow := n.underflow || n.depth - 1 < 0 }

def balanced (n : Nesting) : Bool := n.depth = 0 && !n.underflow

/-- The nesting after a lexeme of the kind. -/
def after (n : Nesting) : Kind → Nesting
  | .leftParen  => n.enter
  | .rightParen => n.leave
  | _           => n

@[simp] theorem after_blank (n : Nesting) : n.after .blank = n := rfl

end Nesting

end RuleCheck
