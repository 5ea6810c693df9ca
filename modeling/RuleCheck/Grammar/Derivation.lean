import RuleCheck.Lexeme.Kind

/-!
# Grammar — derivations

The grammar of expressions by its phrases, over rows of kinds without blanks.  An expression is a
row of items between commas.  An item is a chain of operands joined by operators; a sign can join
operands too, behind a string literal or a right parenthesis, and a plus sign behind a number.
Variables are items of their own, at the top and in the arguments of a call, and paths behind a
comma and in the arguments of a call.  What a parenthesis closes can be called, again and again.
-/

namespace RuleCheck

inductive Phrase where
  | top
  /-- What follows an item: nothing, or a comma and more items. -/
  | rest
  | callBody
  | groupBody
  /-- Arguments in parentheses, any number of times. -/
  | calls
  | group
  /-- An operand without a sign before it. -/
  | bare
  | signed
  | chain
deriving DecidableEq, Repr

/-- Whether a sign may join the row that comes first with the signed operand that comes next. -/
def joinsBySign (a b : List Kind) : Prop :=
  a.getLast? = some .string ∨ a.getLast? = some .rightParen ∨
    (a.getLast? = some .number ∧ b.head? = some .plus)

inductive Derives : Phrase → List Kind → Prop where
  | topChain {a b : List Kind} (ha : Derives .chain a) (hb : Derives .rest b) :
      Derives .top (a ++ b)
  | topVar {b : List Kind} (hb : Derives .rest b) : Derives .top (.var :: b)
  | restNil : Derives .rest []
  | restChain {a b : List Kind} (ha : Derives .chain a) (hb : Derives .rest b) :
      Derives .rest (.comma :: a ++ b)
  | restVar {b : List Kind} (hb : Derives .rest b) : Derives .rest (.comma :: .var :: b)
  | restPath {b : List Kind} (hb : Derives .rest b) : Derives .rest (.comma :: .path :: b)
  | callBodyNil : Derives .callBody []
  | callBodyChain {a b : List Kind} (ha : Derives .chain a) (hb : Derives .rest b) :
      Derives .callBody (a ++ b)
  | callBodyVar {b : List Kind} (hb : Derives .rest b) : Derives .callBody (.var :: b)
  | callBodyPath {b : List Kind} (hb : Derives .rest b) : Derives .callBody (.path :: b)
  | groupBody {a b : List Kind} (ha : Derives .chain a) (hb : Derives .rest b) :
      Derives .groupBody (a ++ b)
  | callsNil : Derives .calls []
  | callsCons {a b : List Kind} (ha : Derives .callBody a) (hb : Derives .calls b) :
      Derives .calls (.leftParen :: a ++ .rightParen :: b)
  | group {a b : List Kind} (ha : Derives .groupBody a) (hb : Derives .calls b) :
      Derives .group (.leftParen :: a ++ .rightParen :: b)
  | bareNumber : Derives .bare [.number]
  | bareString : Derives .bare [.string]
  | bareBoolean : Derives .bare [.boolean]
  | bareGroup {a : List Kind} (ha : Derives .group a) : Derives .bare a
  | bareCall {a b : List Kind} (ha : Derives .callBody a) (hb : Derives .calls b) :
      Derives .bare (.function :: .leftParen :: a ++ .rightParen :: b)
  | plusNumber : Derives .signed [.plus, .number]
  | plusString : Derives .signed [.plus, .string]
  | plusGroup {a : List Kind} (ha : Derives .group a) : Derives .signed (.plus :: a)
  | plusSigned {a : List Kind} (ha : Derives .signed a) : Derives .signed (.plus :: a)
  | minusNumber : Derives .signed [.minus, .number]
  | minusGroup {a : List Kind} (ha : Derives .group a) : Derives .signed (.minus :: a)
  | chainBare {a : List Kind} (ha : Derives .bare a) : Derives .chain a
  | chainSigned {a : List Kind} (ha : Derives .signed a) : Derives .chain a
  | chainOperatorBare {a b : List Kind} (ha : Derives .chain a) (hb : Derives .bare b) :
      Derives .chain (a ++ .operator :: b)
  | chainOperatorSigned {a b : List Kind} (ha : Derives .chain a) (hb : Derives .signed b) :
      Derives .chain (a ++ .operator :: b)
  | chainSign {a b : List Kind} (ha : Derives .chain a) (hb : Derives .signed b)
      (hj : joinsBySign a b) : Derives .chain (a ++ b)

end RuleCheck
