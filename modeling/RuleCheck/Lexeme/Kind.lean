import RuleCheck.Text.Basic

/-!
# Lexeme — kinds

The kind of a lexeme is all that the grammar of expressions sees of it.  A kind has a name, and
a label for messages, which names both signs alike.
-/

namespace RuleCheck

inductive Kind where
  | boolean
  | number
  | string
  | var
  | path
  | function
  | operator
  | leftParen
  | rightParen
  | comma
  | plus
  | minus
  | blank
deriving DecidableEq, Repr

namespace Kind

def name : Kind → Text
  | boolean    => "Boolean".toList
  | number     => "Number".toList
  | string     => "String".toList
  | var        => "Variable".toList
  | path       => "Path".toList
  | function   => "Function".toList
  | operator   => "Operator".toList
  | leftParen  => "LeftParen".toList
  | rightParen => "RightParen".toList
  | comma      => "Comma".toList
  | plus       => "PositiveSign".toList
  | minus      => "NegativeSign".toList
  | blank      => "Whitespace".toList

/-- The words for the kind in a message. -/
def label : Kind → Text
  | boolean      => "boolean".toList
  | number       => "number".toList
  | string       => "string".toList
  | var          => "variable".toList
  | path         => "path".toList
  | function     => "function".toList
  | operator     => "operator".toList
  | leftParen    => "\"(\"".toList
  | rightParen   => "\")\"".toList
  | comma        => "\",\"".toList
  | plus | minus => "sign".toList
  | blank        => "whitespace".toList

/-- Whether an expression may end with a lexeme of the kind. -/
def mayEnd : Kind → Bool
  | boolean | number | string | var | path | rightParen            => true
  | function | operator | leftParen | comma | plus | minus | blank => false

theorem name_injective {a b : Kind} (h : a.name = b.name) : a = b := by
  revert h
  cases a <;> cases b <;> decide

end Kind

end RuleCheck
