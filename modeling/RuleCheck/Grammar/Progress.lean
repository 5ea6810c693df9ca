import RuleCheck.Grammar.Follow
import RuleCheck.Grammar.Nesting
import RuleCheck.Fault

/-!
# Grammar — progress through an expression

What the grammar keeps of the lexemes before a place: what may come there, how the parentheses nest,
and the kind of the last lexeme that was no blank.  Blanks change nothing
(`Progress.after_blank`).  An expression may end where the parentheses balance and the last lexeme
may end one; of two things missing the parentheses are named (`Progress.missing?`).
-/

namespace RuleCheck

structure Progress where
  /-- What may come next. -/
  slots : Slots
  nesting : Nesting
  /-- The kind of the last lexeme that was no blank. -/
  last : Option Kind
deriving DecidableEq

namespace Progress

def start : Progress := ⟨.start, .start, none⟩

def admits (p : Progress) (k : Kind) : Bool := p.slots.admits k

/-- The progress after a lexeme of the kind. -/
def after (p : Progress) (k : Kind) : Progress :=
  if k = .blank then p else ⟨p.slots.after k, p.nesting.after k, some k⟩

/-- Why the expression may not end here, if it may not. -/
def missing? (p : Progress) : Option Cause :=
  if !p.nesting.balanced then some .unbalanced
  else if p.last.any Kind.mayEnd then none
  else some .incomplete

@[simp] theorem after_blank (p : Progress) : p.after .blank = p := rfl

@[simp] theorem admits_blank (p : Progress) : p.admits .blank = true := rfl

theorem after_of_ne_blank (p : Progress) {k : Kind} (h : k ≠ .blank) :
    p.after k = ⟨p.slots.after k, p.nesting.after k, some k⟩ := if_neg h

end Progress

end RuleCheck
