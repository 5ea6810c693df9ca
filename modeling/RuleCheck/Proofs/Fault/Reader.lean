import RuleCheck.Failure
import RuleCheck.Fault.Reader

/-!
# Proofs — Fault — messages taken apart

The reason of a fault is read off its message, which may hold anything at all that stood behind a
backslash, marks like the one before the reason included.  But that mark comes behind the digits of
the column, where no bracket is, so the first mark is always its own (`Fault.cut?_message`).  Hence
**a message splits back into the column and the reason** (`Fault.message_splits`), and two bad
escapes with one message are the same.
-/

namespace RuleCheck

namespace Fault

/-- The message up to its first `]: `. -/
def front (f : Fault) : Text := "parse error at [column ".toList ++ Text.decimal f.column

theorem bracket_notMem_front (f : Fault) : ']' ∉ f.front := by
  have hhead : ']' ∉ "parse error at [column ".toList := by decide +kernel
  have hdigits : ']' ∉ Text.decimal f.column := fun h =>
    absurd (Text.isDigit_of_mem_decimal h) (by decide)
  unfold front
  rw [List.mem_append, not_or]
  exact ⟨hhead, hdigits⟩

/-- **The first mark of a message is the one behind its column.** -/
theorem cut?_message (f : Fault) :
    Text.cut? "]: ".toList f.message = some (f.front, f.cause.reason) := by
  have hmark : "]: ".toList = ']' :: ": ".toList := by decide
  unfold message
  rw [hmark]
  exact Text.cut?_append f.bracket_notMem_front

theorem reason_eq (f : Fault) : f.reason = f.cause.reason := by
  unfold reason
  rw [cut?_message]

theorem message_eq_front_append (f : Fault) : f.message = f.front ++ "]: ".toList ++ f.reason := by
  unfold message front
  rw [reason_eq]

theorem front_prefix {f : Fault} {x y : Text} (h : f.message = x ++ "]: ".toList ++ y) :
    f.front <+: x := by
  have hcut := f.cut?_message
  rw [h] at hcut
  exact Text.prefix_of_cut? hcut

/-- The digits before the first mark are read as the column. -/
theorem ofMessage?_message (f : Fault) : ofMessage? f.message = some (f.column, f.reason) := by
  have hdigits : f.front.drop "parse error at [column ".toList.length = Text.decimal f.column :=
    List.drop_left
  have hall : (Text.decimal f.column).all Char.isDigit :=
    List.all_eq_true.mpr fun _ => Text.isDigit_of_mem_decimal
  unfold ofMessage?
  rw [cut?_message, reason_eq]
  simp only [Option.bind_eq_bind, Option.bind_some]
  rw [hdigits, if_pos ⟨Nat.toDigits_ne_nil, hall⟩, Text.decimal, Nat.ofDigitChars_ten_toDigits]
  rfl

theorem message_inj {f g : Fault} :
    f.message = g.message ↔ f.column = g.column ∧ f.reason = g.reason := by
  constructor
  · intro h
    have hread := congrArg ofMessage? h
    rw [ofMessage?_message, ofMessage?_message] at hread
    simpa using hread
  · rintro ⟨hc, hr⟩
    have hf : f.front = g.front := by
      unfold front
      rw [hc]
    rw [message_eq_front_append, message_eq_front_append, hf, hr]

/-- Two bad escapes are told apart by their messages. -/
theorem message_badEscape_inj {c d : Nat} {s u : Text} :
    message ⟨c, .badEscape s⟩ = message ⟨d, .badEscape u⟩ ↔ c = d ∧ s = u := by
  rw [message_inj, reason_eq, reason_eq]
  unfold Cause.reason
  rw [List.append_left_inj, List.append_right_inj]

/-- **A message splits back into its parts**, whatever stood behind a backslash: cut at its first
mark it gives the column and the reason.  A failure that is a fault is described by the message of
the fault. -/
theorem message_splits (f : Fault) :
    f.message =
        "parse error at [column ".toList ++ Text.decimal f.column ++ "]: ".toList ++ f.reason ∧
      (∀ x y, f.message = x ++ "]: ".toList ++ y → f.front <+: x) ∧
      ofMessage? f.message = some (f.column, f.reason) ∧
      (∀ c d s u,
        message ⟨c, .badEscape s⟩ = message ⟨d, .badEscape u⟩ ↔ c = d ∧ s = u) ∧
      (Failure.fault f).message = f.message :=
  ⟨f.message_eq_front_append, fun _ _ => front_prefix, f.ofMessage?_message,
    fun _ _ _ _ => message_badEscape_inj, rfl⟩

/-- A sequence with a mark and a line feed in it. -/
theorem message_splits_mark :
    let f : Fault := ⟨7, .badEscape "]: \n".toList⟩
    let x := "parse error at [column 7]: Illegal escape sequence: '\\".toList
    f.message = x ++ "]: ".toList ++ "\n'".toList ∧ f.front <+: x ∧
      ofMessage? f.message = some (7, "Illegal escape sequence: '\\]: \n'".toList) := by
  intro f x
  have hx : f.message = x ++ "]: ".toList ++ "\n'".toList := by decide +kernel
  have hr : f.reason = "Illegal escape sequence: '\\]: \n'".toList := by decide +kernel
  obtain ⟨-, hfront, hread, -, -⟩ := message_splits f
  exact ⟨hx, hfront x _ hx, hr ▸ hread⟩

end Fault

end RuleCheck
