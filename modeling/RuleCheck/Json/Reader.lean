import RuleCheck.Json.Basic
import RuleCheck.Text.Escape

/-!
# Json — reading

A value is read from a text that holds it and white space around its tokens, and nothing more
(`parse?`).  A string may escape any character that it can name by one code point; it may not hold a
character below `0x20` as it is.  A number has no leading zero.
-/

namespace RuleCheck.Json

def skipSpace (t : Text) : Text := t.dropWhile Char.isWhitespace

/-- The character that a backslash and the character after it stand for. -/
def meaning? (c : Char) : Option Char := if c = '"' then some c else Text.letter? c

/-- The contents of a string from behind its opening quote, and the text behind its closing one. -/
def readString : Text → Option (Text × Text)
  | []       => none
  | '"' :: t => some ([], t)
  | '\\' :: 'u' :: a :: b :: c :: d :: t => do
      let x ← Text.codePoint? a b c d
      let (s, t) ← readString t
      return (x :: s, t)
  | '\\' :: c :: t => do
      let x ← meaning? c
      let (s, t) ← readString t
      return (x :: s, t)
  | c :: t =>
      if c = '\\' ∨ c.toNat < 0x20 then none
      else do
        let (s, t) ← readString t
        return (c :: s, t)

/-- A number at the beginning of a text. -/
def readNumber (t : Text) : Option (Nat × Text) :=
  match t.takeWhile Char.isDigit with
  | []          => none
  | '0' :: _ :: _ => none
  | digits      => some (Nat.ofDigitChars 10 digits 0, t.dropWhile Char.isDigit)

mutual

/-- A value at the beginning of a text, of no more than so many levels and items. -/
def readValue : Nat → Text → Option (Json × Text)
  | 0, _     => none
  | n + 1, t =>
      match skipSpace t with
      | '"' :: t => (readString t).map fun (s, t) => (string s, t)
      | '[' :: t =>
          match skipSpace t with
          | ']' :: t => some (array [], t)
          | t        => (readItems n t).map fun (l, t) => (array l, t)
      | '\x7b' :: t =>
          match skipSpace t with
          | '\x7d' :: t => some (object [], t)
          | t           => (readMembers n t).map fun (l, t) => (object l, t)
      | 't' :: 'r' :: 'u' :: 'e' :: t        => some (bool true, t)
      | 'f' :: 'a' :: 'l' :: 's' :: 'e' :: t => some (bool false, t)
      | t                                    => (readNumber t).map fun (n, t) => (number n, t)

/-- One item and more of an array, from behind its bracket or a comma. -/
def readItems : Nat → Text → Option (List Json × Text)
  | 0, _     => none
  | n + 1, t => do
      let (v, t) ← readValue n t
      match skipSpace t with
      | ',' :: t => do
          let (l, t) ← readItems n t
          return (v :: l, t)
      | ']' :: t => return ([v], t)
      | _        => none

/-- One member and more of an object, from behind its bracket or a comma. -/
def readMembers : Nat → Text → Option (List (Text × Json) × Text)
  | 0, _     => none
  | n + 1, t =>
      match skipSpace t with
      | '"' :: t => do
          let (k, t) ← readString t
          match skipSpace t with
          | ':' :: t => do
              let (v, t) ← readValue n t
              match skipSpace t with
              | ',' :: t => do
                  let (l, t) ← readMembers n t
                  return ((k, v) :: l, t)
              | '\x7d' :: t => return ([(k, v)], t)
              | _           => none
          | _ => none
      | _ => none

end

def parse? (t : Text) : Option Json :=
  match readValue (t.length + 1) t with
  | some (v, rest) => if skipSpace rest = [] then some v else none
  | none           => none

end RuleCheck.Json
