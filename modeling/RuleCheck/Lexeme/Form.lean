import RuleCheck.Lexeme.Basic
import RuleCheck.Lexeme.Literal
import RuleCheck.Lexeme.Numeral

/-!
# Lexeme — forms

The twelve forms that a lexeme can have.  Each reads at the beginning of a text, on its own, as
much as it can; `read` tries them in the order of `precedence` and takes the first reading that
finds anything.  A lexeme found takes at least one character (`width_pos`) and no more than there
are (`width_le_length`).

Only the operators before the blank and the truth values before the function names depend on that
order.
-/

namespace RuleCheck

inductive Form where
  | operator
  | sign
  | number
  | string
  | boolean
  | function
  | leftParen
  | rightParen
  | comma
  | var
  | path
  | blank
deriving DecidableEq, Repr

namespace Form

/-- The forms in the order in which they are tried. -/
def precedence : List Form :=
  [operator, sign, number, string, boolean, function, leftParen, rightParen, comma, var, path,
    blank]

theorem mem_precedence (f : Form) : f ∈ precedence := by cases f <;> decide

def readOperator (t : Text) : Reading :=
  match Operator.all.find? (·.begins t) with
  | some op => .lexeme ⟨.operator op, op.spelling.length⟩
  | none    => .nothing

def readSign : Text → Reading
  | '+' :: _ => .single .plus
  | '-' :: _ => .single .minus
  | _        => .nothing

def readNumber (t : Text) : Reading :=
  match t.takeWhile Char.isDigit with
  | []     => .nothing
  | digits => .lexeme ⟨.number (Numeral.magnitude digits), digits.length⟩

/-- A literal that is not closed is no literal. -/
def readString : Text → Reading
  | '\'' :: t =>
      match Literal.body? t with
      | none     => .nothing
      | some raw =>
          match Literal.decode 1 raw with
          | .ok content => .lexeme ⟨.string content, raw.length + 2⟩
          | .error e    => .badEscape e.offset e.sequence
  | _ => .nothing

/-- The spellings of the two truth values. -/
def truthValues : List Text := ["true".toList, "TRUE".toList, "false".toList, "FALSE".toList]

/-- A truth value needs no end of a word behind it. -/
def readBoolean (t : Text) : Reading :=
  match truthValues.find? (·.isPrefixOf t) with
  | some spelling => .spelled .boolean spelling
  | none          => .nothing

/-- Letters, digits and the underscore. -/
def isWordChar (c : Char) : Bool := c.isAlphanum || c = '_'

/-- A function's name is a row of word characters, the first of them no digit. -/
def readFunction (t : Text) : Reading :=
  match t.takeWhile isWordChar with
  | []        => .nothing
  | c :: name => if c.isDigit then .nothing else .spelled .function (c :: name)

/-- The single character `c` as `token`. -/
def readChar (c : Char) (token : Token) : Text → Reading
  | []     => .nothing
  | d :: _ => if d = c then .single token else .nothing

def readVar : Text → Reading
  | '$' :: t =>
      match t.takeWhile Char.isAlpha with
      | []      => .nothing
      | letters => .spelled .var ('$' :: letters)
  | _ => .nothing

/-- Whether a path goes on past the character. -/
def isPathChar (c : Char) : Bool := c ≠ '(' && c ≠ ')' && c ≠ ','

/-- A path is a dot and one or more segments, each after a slash, up to the next parenthesis or
comma.  If a segment is empty there is no path, not even a shorter one. -/
def readPath : Text → Reading
  | '.' :: '/' :: t =>
      if (t.takeWhile isPathChar).splitOn '/' |>.all (· ≠ []) then
        .spelled .path ('.' :: '/' :: t.takeWhile isPathChar)
      else .nothing
  | _ => .nothing

def readBlank : Text → Reading
  | []     => .nothing
  | c :: _ => if c.isWhitespace then .single .blank else .nothing

/-- What the form finds at the beginning of a text. -/
def read : Form → Text → Reading
  | operator   => readOperator
  | sign       => readSign
  | number     => readNumber
  | string     => readString
  | boolean    => readBoolean
  | function   => readFunction
  | leftParen  => readChar '(' .leftParen
  | rightParen => readChar ')' .rightParen
  | comma      => readChar ',' .comma
  | var        => readVar
  | path       => readPath
  | blank      => readBlank

/-- The first reading that finds anything, in the order given. -/
def readFirst : List Form → Text → Reading
  | [], _      => .nothing
  | f :: fs, t => match f.read t with
      | .nothing => readFirst fs t
      | r        => r

end Form

/-- What stands at the beginning of a text. -/
def read (t : Text) : Reading := Form.readFirst Form.precedence t

/-! ### The width of a lexeme -/

/-- The lexeme takes some of the characters that there are. -/
structure Lexeme.Fits (l : Lexeme) (t : Text) : Prop where
  pos : 0 < l.width
  le_length : l.width ≤ t.length

theorem Lexeme.Fits.spelled {k : Token} {s t : Text} (ne : s ≠ []) (h : s <+: t) :
    Fits ⟨k, s.length⟩ t := ⟨List.length_pos_iff.mpr ne, h.length_le⟩

theorem Lexeme.Fits.single (k : Token) (c : Char) (t : Text) : Fits ⟨k, 1⟩ (c :: t) :=
  .spelled (List.cons_ne_nil c []) (List.prefix_append [c] t)

namespace Form

variable {t : Text} {l : Lexeme}

theorem fits_readOperator (h : readOperator t = .lexeme l) : l.Fits t := by
  rw [readOperator] at h
  split at h <;> cases h
  rename_i op hop
  have hb : op.begins t := by simpa using List.find?_some hop
  have ne : op.spelling ≠ [] := by
    intro he
    have := op.two_le_length_spelling
    simp [he] at this
  exact .spelled ne (List.isPrefixOf_iff_prefix.mp (Bool.and_eq_true_iff.mp hb).1)

theorem fits_readSign (h : readSign t = .lexeme l) : l.Fits t := by
  rw [readSign.eq_def] at h
  split at h <;> cases h
  · exact .single ..
  · exact .single ..

theorem fits_readNumber (h : readNumber t = .lexeme l) : l.Fits t := by
  rw [readNumber] at h
  split at h <;> cases h
  rename_i ne
  exact .spelled ne (List.takeWhile_prefix _)

/-- A literal takes its two quotes besides its body. -/
theorem fits_readString (h : readString t = .lexeme l) : l.Fits t := by
  rw [readString.eq_def] at h
  split at h
  · rename_i t
    split at h
    · cases h
    · rename_i raw hraw
      have hlt : raw.length < t.length := Literal.length_lt_of_bodyFrom hraw
      split at h <;> cases h
      exact ⟨Nat.succ_pos _, Nat.succ_le_succ hlt⟩
  · cases h

theorem fits_readBoolean (h : readBoolean t = .lexeme l) : l.Fits t := by
  rw [readBoolean] at h
  split at h <;> cases h
  rename_i s hs
  have ne : ∀ s ∈ truthValues, s ≠ [] := by decide
  have hp : s.isPrefixOf t := by simpa using List.find?_some hs
  exact .spelled (ne s (List.mem_of_find?_eq_some hs)) (List.isPrefixOf_iff_prefix.mp hp)

theorem fits_readFunction (h : readFunction t = .lexeme l) : l.Fits t := by
  rw [readFunction] at h
  split at h
  · cases h
  · rename_i c name hn
    split at h <;> cases h
    exact .spelled (List.cons_ne_nil c name) (hn ▸ List.takeWhile_prefix isWordChar)

theorem fits_readChar {c : Char} {k : Token} (h : readChar c k t = .lexeme l) : l.Fits t := by
  rw [readChar.eq_def] at h
  split at h
  · cases h
  · split at h <;> cases h
    exact .single ..

theorem fits_readVar (h : readVar t = .lexeme l) : l.Fits t := by
  rw [readVar.eq_def] at h
  split at h
  · split at h <;> cases h
    exact .spelled (List.cons_ne_nil _ _)
      (List.prefix_cons_inj '$' |>.mpr (List.takeWhile_prefix _))
  · cases h

theorem fits_readPath (h : readPath t = .lexeme l) : l.Fits t := by
  rw [readPath.eq_def] at h
  split at h
  · rename_i t
    have hp : "./".toList ++ t.takeWhile isPathChar <+: "./".toList ++ t :=
      List.prefix_append_right_inj _ |>.mpr (List.takeWhile_prefix _)
    split at h <;> cases h
    exact .spelled (List.cons_ne_nil _ _) hp
  · cases h

theorem fits_readBlank (h : readBlank t = .lexeme l) : l.Fits t := by
  rw [readBlank.eq_def] at h
  split at h
  · cases h
  · split at h <;> cases h
    exact .single ..

/-- **Whatever a form finds takes some of the characters there are.** -/
theorem fits_read {f : Form} (h : f.read t = .lexeme l) : l.Fits t := by
  cases f with
  | operator => exact fits_readOperator h
  | sign => exact fits_readSign h
  | number => exact fits_readNumber h
  | string => exact fits_readString h
  | boolean => exact fits_readBoolean h
  | function => exact fits_readFunction h
  | leftParen | rightParen | comma => exact fits_readChar h
  | var => exact fits_readVar h
  | path => exact fits_readPath h
  | blank => exact fits_readBlank h

theorem exists_of_readFirst {fs : List Form} (h : readFirst fs t = .lexeme l) :
    ∃ f ∈ fs, f.read t = .lexeme l := by
  induction fs with
  | nil => cases h
  | cons f fs ih =>
      simp only [readFirst] at h
      split at h
      · obtain ⟨g, hg, hr⟩ := ih h
        exact ⟨g, List.mem_cons_of_mem _ hg, hr⟩
      · exact ⟨f, List.mem_cons_self .., h⟩

end Form

theorem fits_read {t : Text} {l : Lexeme} (h : read t = .lexeme l) : l.Fits t := by
  obtain ⟨f, -, hf⟩ := Form.exists_of_readFirst h
  exact Form.fits_read hf

theorem width_pos {t : Text} {l : Lexeme} (h : read t = .lexeme l) : 0 < l.width :=
  (fits_read h).pos

theorem width_le_length {t : Text} {l : Lexeme} (h : read t = .lexeme l) : l.width ≤ t.length :=
  (fits_read h).le_length

@[simp] theorem read_nil : read [] = .nothing := by decide

end RuleCheck
