import RuleCheck.Fault
import RuleCheck.Lexeme.Form
import RuleCheck.Proofs.Lexeme.Escape
import RuleCheck.Proofs.Text.Place

/-!
# Proofs — Lexeme — recognition at a place

A form can be looked for at a place in a text, with columns counted from the beginning of the text
(`Form.recognize`).  Where the text ends for a word operator is then a comparison of columns, and a
bad escape is told by the column of its backslash.

**Recognition is the reading of what lies ahead** (`Form.recognize_eq`, `recognize_eq`).  So what is
behind the place matters to the column of a bad escape only, and that column goes with the place
(`Form.recognize_shift`, `recognize_shift`).
-/

namespace RuleCheck

/-- The fault `n` columns farther on. -/
def Fault.shift (n : Nat) (f : Fault) : Fault := { f with column := n + f.column }

/-- The lexeme found, if there is any, or the fault of a bad escape. -/
abbrev Recognition := Except Fault (Option Lexeme)

/-- What is recognized where the reading begins in the column. -/
def Reading.outcome (column : Nat) : Reading → Recognition
  | nothing                   => .ok none
  | lexeme l                  => .ok (some l)
  | badEscape offset sequence => .error ⟨column + offset, .badEscape sequence⟩

theorem Reading.shift_outcome (n column : Nat) (r : Reading) :
    (r.outcome column).mapError (.shift n) = r.outcome (n + column) := by
  cases r with
  | nothing | lexeme => rfl
  | badEscape offset sequence =>
      rw [Reading.outcome, Reading.outcome, Nat.add_assoc]
      rfl

namespace Form

variable (p : Place)

/-- Behind a word there is one more column before the end. -/
def operatorAt? : Option Lexeme :=
  (Operator.all.find? fun op =>
    p.startsWith op.spelling && (!op.isWord || p.column + op.spelling.length < p.size)).map
      fun op => ⟨.operator op, op.spelling.length⟩

def charAt? (c : Char) (token : Token) : Option Lexeme :=
  if p.peek? 0 = some c then some ⟨token, 1⟩ else none

def signAt? : Option Lexeme := (charAt? p '+' .plus).or (charAt? p '-' .minus)

def numberAt? : Option Lexeme :=
  let n := p.runLength 0 Char.isDigit
  if n = 0 then none else some ⟨.number (Numeral.magnitude (p.slice 0 n)), n⟩

def stringAt : Recognition :=
  if p.peek? 0 = some '\'' then
    match Literal.body? (p.textFrom (p.column + 1)) with
    | none     => .ok none
    | some raw =>
        match Literal.decode (p.column + 1) raw with
        | .ok content => .ok (some ⟨.string content, raw.length + 2⟩)
        | .error e    => .error ⟨e.offset, .badEscape e.sequence⟩
  else .ok none

def booleanAt? : Option Lexeme :=
  (truthValues.find? p.startsWith).map fun s => ⟨.boolean s, s.length⟩

def functionAt? : Option Lexeme :=
  let n := p.runLength 0 isWordChar
  if n = 0 ∨ (p.peek? 0).any Char.isDigit then none else some ⟨.function (p.slice 0 n), n⟩

def varAt? : Option Lexeme :=
  let n := p.runLength 1 Char.isAlpha
  if p.peek? 0 = some '$' then
    if n = 0 then none else some ⟨.var (p.slice 0 (n + 1)), n + 1⟩
  else none

def pathAt? : Option Lexeme :=
  let n := p.runLength 2 isPathChar
  if p.startsWith "./".toList then
    if (p.slice 2 n).splitOn '/' |>.all (· ≠ []) then some ⟨.path (p.slice 0 (n + 2)), n + 2⟩
    else none
  else none

def blankAt? : Option Lexeme :=
  if (p.peek? 0).any Char.isWhitespace then some ⟨.blank, 1⟩ else none

/-- What the form finds at a place. -/
def recognize : Form → Recognition
  | operator   => .ok (operatorAt? p)
  | sign       => .ok (signAt? p)
  | number     => .ok (numberAt? p)
  | string     => stringAt p
  | boolean    => .ok (booleanAt? p)
  | function   => .ok (functionAt? p)
  | leftParen  => .ok (charAt? p '(' .leftParen)
  | rightParen => .ok (charAt? p ')' .rightParen)
  | comma      => .ok (charAt? p ',' .comma)
  | var        => .ok (varAt? p)
  | path       => .ok (pathAt? p)
  | blank      => .ok (blankAt? p)

/-- The first that is found, in the order given, up to the first fault. -/
def recognizeFirst : List Form → Recognition
  | []      => .ok none
  | f :: fs => do
      match ← f.recognize p with
      | some l => return some l
      | none   => recognizeFirst fs

end Form

/-- What stands at a place. -/
def recognize (p : Place) : Recognition := Form.recognizeFirst p Form.precedence

/-! ### Recognition reads what lies ahead -/

namespace Form

variable (p : Place)

theorem operatorAt?_eq : (.ok (operatorAt? p) : Recognition) =
    (readOperator p.ahead).outcome p.column := by
  have hb : (fun op : Operator => p.startsWith op.spelling &&
      (!op.isWord || p.column + op.spelling.length < p.size)) = (·.begins p.ahead) := by
    funext op
    have hne : op.spelling ≠ [] := by cases op <;> decide
    rw [Place.startsWith_eq hne, Place.size_eq, Operator.begins]
    simp only [Nat.add_lt_add_iff_left]
  rw [operatorAt?, hb, readOperator]
  cases Operator.all.find? (·.begins p.ahead) <;> rfl

theorem charAt?_eq (c : Char) (token : Token) : (.ok (charAt? p c token) : Recognition) =
    (readChar c token p.ahead).outcome p.column := by
  rw [charAt?, Place.peek?]
  cases p.ahead with
  | nil => rfl
  | cons d t =>
      simp only [List.getElem?_cons_zero, Option.some.injEq, readChar]
      split <;> rfl

theorem signAt?_eq : (.ok (signAt? p) : Recognition) =
    (readSign p.ahead).outcome p.column := by
  rw [signAt?, charAt?, charAt?, Place.peek?]
  cases p.ahead with
  | nil => rfl
  | cons c t =>
      by_cases hp : c = '+'
      · subst hp
        rfl
      by_cases hm : c = '-'
      · subst hm
        rfl
      rw [readSign]
      · simp [hp, hm, Reading.outcome]
      · simpa using hp
      · simpa using hm

theorem numberAt?_eq : (.ok (numberAt? p) : Recognition) =
    (readNumber p.ahead).outcome p.column := by
  simp only [numberAt?, readNumber, p.slice_runLength 0 Char.isDigit]
  simp only [Place.runLength, List.drop_zero]
  cases p.ahead.takeWhile Char.isDigit <;> rfl

theorem stringAt_eq : stringAt p = (readString p.ahead).outcome p.column := by
  have hd : p.textFrom (p.column + 1) = p.ahead.drop 1 := by
    rw [Place.ahead_eq_drop, List.drop_drop, Place.textFrom]
  rw [stringAt, hd, Place.peek?]
  cases p.ahead with
  | nil => rfl
  | cons c t =>
      by_cases hc : c = '\''
      · subst hc
        simp only [List.getElem?_cons_zero, if_true, List.drop_one, List.tail_cons, readString]
        cases Literal.body? t with
        | none => rfl
        | some raw =>
            -- decoding counts from the column, reading from the beginning of what lies ahead
            simp only [Literal.decode_add]
            cases Literal.decode 1 raw <;> rfl
      · rw [readString]
        · simp [hc, Reading.outcome]
        · simpa using hc

theorem booleanAt?_eq : (.ok (booleanAt? p) : Recognition) =
    (readBoolean p.ahead).outcome p.column := by
  have hb : truthValues.find? p.startsWith = truthValues.find? (·.isPrefixOf p.ahead) := rfl
  rw [booleanAt?, hb, readBoolean]
  cases truthValues.find? (·.isPrefixOf p.ahead) <;> rfl

theorem functionAt?_eq : (.ok (functionAt? p) : Recognition) =
    (readFunction p.ahead).outcome p.column := by
  simp only [functionAt?, readFunction, p.slice_runLength 0 isWordChar]
  simp only [Place.runLength, List.drop_zero, Place.peek?]
  cases p.ahead with
  | nil => rfl
  | cons c t =>
      by_cases hc : isWordChar c
      · rw [List.takeWhile_cons_of_pos hc]
        simp only [List.getElem?_cons_zero, Option.any_some, List.length_cons, Nat.add_one_ne_zero,
          false_or]
        split <;> rfl
      · rw [List.takeWhile_cons_of_neg hc]
        rfl

theorem varAt?_eq : (.ok (varAt? p) : Recognition) =
    (readVar p.ahead).outcome p.column := by
  simp only [varAt?, p.slice_runLength_add 1 Char.isAlpha]
  obtain ⟨behind, ahead⟩ := p
  cases ahead with
  | nil => rfl
  | cons c t =>
      by_cases hc : c = '$'
      · subst hc
        simp only [Place.peek?, Place.runLength, List.getElem?_cons_zero, if_true, List.drop_one,
          List.tail_cons, readVar]
        cases t.takeWhile Char.isAlpha <;> rfl
      · rw [readVar]
        · simp [Place.peek?, hc, Reading.outcome]
        · simpa using hc

theorem pathAt?_eq : (.ok (pathAt? p) : Recognition) =
    (readPath p.ahead).outcome p.column := by
  simp only [pathAt?, p.slice_runLength_add 2 isPathChar, p.slice_runLength 2 isPathChar]
  simp only [Place.runLength]
  by_cases hp : p.startsWith "./".toList
  · obtain ⟨t, ht⟩ := List.isPrefixOf_iff_prefix.mp hp
    rw [if_pos hp, ← ht]
    change _ = Reading.outcome _ (readPath ('.' :: '/' :: t))
    rw [readPath]
    change Except.ok (if ((t.takeWhile isPathChar).splitOn '/').all (· ≠ []) then _ else _) = _
    split <;> rfl
  · rw [if_neg hp, readPath.eq_def]
    split
    · rename_i t ht
      rw [Place.startsWith, ht] at hp
      exact absurd rfl hp
    · rfl

theorem blankAt?_eq : (.ok (blankAt? p) : Recognition) =
    (readBlank p.ahead).outcome p.column := by
  rw [blankAt?, Place.peek?]
  cases p.ahead with
  | nil => rfl
  | cons d t =>
      simp only [List.getElem?_cons_zero, Option.any_some, readBlank]
      split <;> rfl

/-- **A form recognized at a place** is what it reads of what lies ahead. -/
theorem recognize_eq (f : Form) : f.recognize p = (f.read p.ahead).outcome p.column := by
  cases f with
  | operator => exact operatorAt?_eq p
  | sign => exact signAt?_eq p
  | number => exact numberAt?_eq p
  | string => exact stringAt_eq p
  | boolean => exact booleanAt?_eq p
  | function => exact functionAt?_eq p
  | leftParen | rightParen | comma => exact charAt?_eq p _ _
  | var => exact varAt?_eq p
  | path => exact pathAt?_eq p
  | blank => exact blankAt?_eq p

theorem recognizeFirst_eq (fs : List Form) :
    recognizeFirst p fs = (readFirst fs p.ahead).outcome p.column := by
  induction fs with
  | nil => rfl
  | cons f fs ih =>
      rw [recognizeFirst, readFirst, recognize_eq]
      cases f.read p.ahead with
      | nothing => exact ih
      | lexeme | badEscape => rfl

end Form

theorem recognize_eq (p : Place) : recognize p = (read p.ahead).outcome p.column :=
  Form.recognizeFirst_eq p Form.precedence

/-! ### Places with the same ahead of them -/

section Shift

variable {p q : Place} {m n : Nat}

/-- **What is behind a place does not matter**, but to the column of a bad escape. -/
theorem Form.recognize_shift (f : Form) (ha : p.ahead = q.ahead)
    (hc : m + p.column = n + q.column) :
    (f.recognize p).mapError (Fault.shift m) = (f.recognize q).mapError (Fault.shift n) := by
  rw [Form.recognize_eq, Form.recognize_eq, Reading.shift_outcome, Reading.shift_outcome, ha, hc]

theorem recognize_shift (ha : p.ahead = q.ahead) (hc : m + p.column = n + q.column) :
    (recognize p).mapError (Fault.shift m) = (recognize q).mapError (Fault.shift n) := by
  rw [recognize_eq, recognize_eq, Reading.shift_outcome, Reading.shift_outcome, ha, hc]

end Shift

end RuleCheck
