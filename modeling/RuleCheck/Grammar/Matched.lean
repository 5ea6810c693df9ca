import RuleCheck.Grammar.Nesting

/-!
# Grammar — matched parentheses

The rows of parentheses in which each is closed by a match of its own, by their grammar.  It is what
`Nesting` decides by counting.
-/

namespace RuleCheck

/-- The nesting at the end of a row of kinds. -/
def Nesting.ofKinds (ks : List Kind) : Nesting := ks.foldl Nesting.after .start

/-- A row of parentheses is empty, or a matched row in parentheses and a matched row behind it. -/
inductive Matched : List Kind → Prop where
  | nil : Matched []
  | pair {a b : List Kind} (ha : Matched a) (hb : Matched b) :
      Matched (.leftParen :: a ++ .rightParen :: b)

end RuleCheck
