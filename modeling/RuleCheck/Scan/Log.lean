import RuleCheck.Scan.Run
import RuleCheck.Text.Quoted

/-!
# Scan — the log of a run

A run is logged in one record for each lexeme accepted that is no blank, which says what may come
after it, and one record for the verdict at the end.  The former are on the level `trace`, the
latter is on the level `debug`.
-/

namespace RuleCheck

inductive LogLevel where
  | debug
  | trace
deriving DecidableEq, Repr

inductive Record where
  | acceptance (a : Acceptance)
  /-- The verdict on an expression. -/
  | verdict (expression : Text) (v : Verdict)
deriving DecidableEq

namespace Record

def level : Record → LogLevel
  | acceptance _ => .trace
  | verdict _ _  => .debug

/-- The record in words; the version of Unicode says how the expression is quoted. -/
def message (u : Unicode) : Record → Text
  | acceptance a =>
      "accepted ".toList ++ a.lexeme.kind.name ++ " at column ".toList ++ Text.decimal a.column ++
        "; permitted ".toList ++ a.slots.render
  | verdict t .accepted => "expression accepted: ".toList ++ t.quoted u
  | verdict t (.rejected f) =>
      "expression rejected: ".toList ++ t.quoted u ++ ": ".toList ++ f.message

end Record

/-- The log of checking a text. -/
def log (t : Text) : List Record :=
  let r := (Scan.start t).run
  (r.accepted.filter (·.lexeme.kind ≠ .blank)).map .acceptance ++ [.verdict t r.verdict]

end RuleCheck
