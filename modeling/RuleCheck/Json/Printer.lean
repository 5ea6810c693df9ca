import RuleCheck.Json.Basic

/-!
# Json — printing

One printer writes a value in a layout.  A layout says how a line begins at a depth and what stands
between a name and its value: `Layout.compact` has no white space between tokens, `Layout.pretty`
puts each item and member on a line of its own, two blanks further in than what holds it.  An array
or an object without contents is two brackets in every layout.

A string escapes only what it must: the double quote, the backslash and the characters below `0x20`.
-/

namespace RuleCheck.Json

/-- A character as it stands in a string. -/
def escaped (c : Char) : Text :=
  match c with
  | '"'    => ['\\', '"']
  | '\\'   => ['\\', '\\']
  | '\x08' => ['\\', 'b']
  | '\t'   => ['\\', 't']
  | '\n'   => ['\\', 'n']
  | '\x0c' => ['\\', 'f']
  | '\r'   => ['\\', 'r']
  | c      =>
      if c.toNat < 0x20 then
        ['\\', 'u', '0', '0', (c.toNat / 16).digitChar, (c.toNat % 16).digitChar]
      else [c]

def printString (s : Text) : Text := ['"'] ++ s.flatMap escaped ++ ['"']

def printBool : Bool → Text
  | true  => "true".toList
  | false => "false".toList

structure Layout where
  /-- What begins a line at a depth. -/
  newline : Nat → Text
  /-- What stands between a name and its value. -/
  colon : Text

namespace Layout

def compact : Layout := ⟨fun _ => [], [':']⟩

def pretty : Layout := ⟨fun depth => '\n' :: List.replicate (2 * depth) ' ', [':', ' ']⟩

/-- The pieces between two brackets that stand at the depth. -/
def enclose (y : Layout) (depth : Nat) (left right : Char) (pieces : List Text) : Text :=
  if pieces = [] then [left, right]
  else
    [left] ++ y.newline (depth + 1) ++ ([','] ++ y.newline (depth + 1)).intercalate pieces ++
      y.newline depth ++ [right]

end Layout

mutual

def print (y : Layout) (depth : Nat) : Json → Text
  | bool b         => printBool b
  | number n       => Text.decimal n
  | string s       => printString s
  | array items    => y.enclose depth '[' ']' (printItems y (depth + 1) items)
  | object members => y.enclose depth '\x7b' '\x7d' (printMembers y (depth + 1) members)

def printItems (y : Layout) (depth : Nat) : List Json → List Text
  | []     => []
  | v :: l => print y depth v :: printItems y depth l

def printMembers (y : Layout) (depth : Nat) : List (Text × Json) → List Text
  | []          => []
  | (k, v) :: l => (printString k ++ y.colon ++ print y depth v) :: printMembers y depth l

end

def compact (v : Json) : Text := v.print .compact 0

def pretty (v : Json) : Text := v.print .pretty 0

end RuleCheck.Json
