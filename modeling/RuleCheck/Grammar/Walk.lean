import RuleCheck.Lexeme.Lexing
import RuleCheck.Grammar.Progress

/-!
# Grammar — walks along a row of kinds

What may follow is settled by the last two kinds alone (`Slots.afterPair`): the last one, and for a
left parenthesis whether the one before it can be called.  So a text can be judged in two passes:
its lexing first, then a walk along the kinds of its lexemes (`judge`).
-/

namespace RuleCheck

/-- Whether a parenthesis that comes next opens a call. -/
def Kind.isCallable : Kind → Bool
  | .function | .rightParen => true
  | _                       => false

/-- What may come after the last two kinds, the latter of which is `last`. -/
def Slots.afterPair : Option Kind → Option Kind → Slots
  | _, none                 => start
  | before, some .leftParen =>
      if before.any Kind.isCallable then afterCallParen else afterGroupParen
  | _, some k               => start.after k

/-- The first member of a row that may not come where it is, after the two kinds given. -/
def firstMisplaced (before last : Option Kind) : List (Nat × Kind) → Option (Nat × Kind)
  | []          => none
  | (c, k) :: r =>
      if (Slots.afterPair before last).admits k then firstMisplaced last (some k) r
      else some (c, k)

/-- Why no lexeme begins a text, which begins at `column`. -/
def unreadable (column : Nat) (t : Text) : Fault :=
  match read t with
  | .badEscape offset sequence => ⟨column + offset, .badEscape sequence⟩
  | _                          => ⟨column, .unknown (t.headD '\x00')⟩

/-- The verdict on a text, from its lexing and a walk along the kinds. -/
def judge (t : Text) : Verdict :=
  let x := lexing t
  let row := (placed 0 x.lexemes).filter (·.2.kind ≠ .blank)
  let ks := kinds x.lexemes
  match firstMisplaced none none (row.map fun (c, l) => (c, l.kind)) with
  | some (c, k) => .rejected ⟨c, .unexpected k⟩
  | none =>
      if x.rest ≠ [] then .rejected (unreadable (t.length - x.rest.length) x.rest)
      else if !(ks.foldl Nesting.after .start).balanced then .rejected ⟨t.length, .unbalanced⟩
      else if ks.getLast?.any Kind.mayEnd then .accepted
      else .rejected ⟨t.length, .incomplete⟩

end RuleCheck
