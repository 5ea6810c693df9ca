import RuleCheck.Grammar.Slot

/-!
# Grammar — what may follow

The grammar of expressions, by what may come next: first in an expression (`Slots.start`) and after
a lexeme of each kind (`Slots.after`).  A blank changes nothing.  A left parenthesis opens a call
where `call` is a member, else a group; every other kind determines what follows it.
-/

namespace RuleCheck.Slots

/-- What an expression may begin with. -/
def start : Slots := ofList [.function, .number, .string, .leftParen, .sign, .boolean, .var]

def afterOperator : Slots := ofList [.function, .number, .string, .leftParen, .sign, .boolean]

def afterMinus : Slots := ofList [.number, .leftParen]

def afterPlus : Slots := ofList [.number, .string, .leftParen, .sign]

def afterNumber : Slots := ofList [.operator, .rightParen, .comma, .plus]

def afterString : Slots := ofList [.operator, .rightParen, .sign, .comma]

def afterBoolean : Slots := ofList [.operator, .rightParen, .comma]

def afterFunction : Slots := ofList [.leftParen, .call]

def afterGroupParen : Slots := ofList [.boolean, .function, .leftParen, .number, .string, .sign]

/-- A call may have no arguments, and its arguments may be variables and paths. -/
def afterCallParen : Slots :=
  ofList [.boolean, .function, .leftParen, .number, .path, .rightParen, .string, .var, .sign]

/-- What a closed parenthesis gives may be called in turn. -/
def afterRightParen : Slots := ofList [.operator, .leftParen, .rightParen, .comma, .call, .sign]

def afterComma : Slots :=
  ofList [.number, .string, .leftParen, .function, .sign, .boolean, .var, .path]

/-- A variable or a path is never an operand. -/
def afterReference : Slots := ofList [.comma, .rightParen]

/-- What may follow a lexeme of the kind that came where `now` said what may come. -/
def after (now : Slots) : Kind → Slots
  | .blank       => now
  | .operator    => afterOperator
  | .minus       => afterMinus
  | .plus        => afterPlus
  | .number      => afterNumber
  | .string      => afterString
  | .boolean     => afterBoolean
  | .function    => afterFunction
  | .leftParen   => if .call ∈ now then afterCallParen else afterGroupParen
  | .rightParen  => afterRightParen
  | .comma       => afterComma
  | .var | .path => afterReference

@[simp] theorem after_blank (now : Slots) : now.after .blank = now := rfl

end RuleCheck.Slots
