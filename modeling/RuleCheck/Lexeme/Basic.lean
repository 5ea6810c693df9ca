import RuleCheck.Lexeme.Kind
import RuleCheck.Lexeme.Operator

/-!
# Lexeme — tokens, lexemes and readings

A token is what a piece of an expression means, a lexeme a token with the number of characters that
it takes.  Reading at the beginning of a text finds a lexeme, finds nothing, or finds a string
literal that is closed but holds an escape with no meaning.  A reading knows no columns: where an
escape stands is counted from the beginning of the text read.
-/

namespace RuleCheck

inductive Token where
  /-- A truth value, as it is spelled. -/
  | boolean (spelling : Text)
  | number (magnitude : Nat)
  /-- A string literal, by the text that it stands for. -/
  | string (content : Text)
  /-- A variable, by its name with the dollar sign. -/
  | var (name : Text)
  | path (spelling : Text)
  | function (name : Text)
  | operator (op : Operator)
  | leftParen
  | rightParen
  | comma
  | plus
  | minus
  | blank
deriving DecidableEq, Repr

def Token.kind : Token → Kind
  | boolean _  => .boolean
  | number _   => .number
  | string _   => .string
  | var _      => .var
  | path _     => .path
  | function _ => .function
  | operator _ => .operator
  | leftParen  => .leftParen
  | rightParen => .rightParen
  | comma      => .comma
  | plus       => .plus
  | minus      => .minus
  | blank      => .blank

structure Lexeme where
  token : Token
  /-- The number of characters that the lexeme takes. -/
  width : Nat
deriving DecidableEq, Repr

def Lexeme.kind (l : Lexeme) : Kind := l.token.kind

inductive Reading where
  | nothing
  | lexeme (l : Lexeme)
  /-- An escape without meaning, by the place of its backslash and the characters after it. -/
  | badEscape (offset : Nat) (sequence : Text)
deriving DecidableEq, Repr

namespace Reading

/-- The reading of one character. -/
def single (token : Token) : Reading := lexeme ⟨token, 1⟩

/-- The token with the characters of `spelling` behind it. -/
def spelled (token : Text → Token) (spelling : Text) : Reading :=
  lexeme ⟨token spelling, spelling.length⟩

end Reading

end RuleCheck
