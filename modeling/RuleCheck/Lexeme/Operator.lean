import RuleCheck.Text.Basic

/-!
# Lexeme — operators

The seven operators that join operands: three symbols and four words.  The blanks around a word
are part of its spelling.
-/

namespace RuleCheck

inductive Operator where
  | equal
  | barBar
  | ampAmp
  | or
  | orUpper
  | and
  | andUpper
deriving DecidableEq, Repr

namespace Operator

def all : List Operator := [equal, barBar, ampAmp, or, orUpper, and, andUpper]

theorem mem_all (op : Operator) : op ∈ all := by cases op <;> decide

def spelling : Operator → Text
  | equal    => "==".toList
  | barBar   => "||".toList
  | ampAmp   => "&&".toList
  | or       => " or ".toList
  | orUpper  => " OR ".toList
  | and      => " and ".toList
  | andUpper => " AND ".toList

/-- Whether the operator is a word between blanks. -/
def isWord : Operator → Bool
  | equal | barBar | ampAmp       => false
  | or | orUpper | and | andUpper => true

/-- Whether the operator stands at the beginning of `t`.  Something must follow a word, so that its
last blank is not the end of the text. -/
def begins (op : Operator) (t : Text) : Bool :=
  op.spelling.isPrefixOf t && (!op.isWord || op.spelling.length < t.length)

theorem two_le_length_spelling (op : Operator) : 2 ≤ op.spelling.length := by
  cases op <;> decide

/-- No operator's spelling begins another's, so at most one begins a text. -/
theorem eq_of_spelling_prefix {a b : Operator} (h : a.spelling.isPrefixOf b.spelling) : a = b := by
  revert h
  cases a <;> cases b <;> decide

end Operator

end RuleCheck
