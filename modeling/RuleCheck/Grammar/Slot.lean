import RuleCheck.Lexeme.Kind

/-!
# Grammar — slots

A slot is what may come next in an expression, and a set of slots says all that may.  Most slots
are filled by the lexemes of one kind (`Kind.slot?`); `sign` is filled by both signs, `plus` only by
the one, and `call` by none: it marks that a parenthesis which comes next opens a call.

A set keeps a flag for each slot, at the slot's index.  It is known by its members
(`Slots.ext_mem`), whatever order and repetition they were listed in (`Slots.mem_ofList`), and it
lists them in the order of `Slot.all` (`Slots.toList`), which is that of the indices
(`Slot.map_index_all`).
-/

namespace RuleCheck

inductive Slot where
  | operator
  | var
  | function
  | call
  | number
  | string
  | leftParen
  | rightParen
  | comma
  | sign
  | boolean
  | path
  | plus
deriving DecidableEq, Repr

namespace Slot

def all : List Slot :=
  [operator, var, function, call, number, string, leftParen, rightParen, comma, sign, boolean,
    path, plus]

theorem mem_all (s : Slot) : s ∈ all := by cases s <;> decide

/-- The number of slots. -/
def count : Nat := 13

/-- The place of the slot in the order of declaration. -/
def index (s : Slot) : Fin count := ⟨s.ctorIdx, by cases s <;> decide⟩

/-- The slots are listed in the order of declaration, with none left out. -/
theorem map_index_all : all.map index = List.finRange count := by decide

theorem index_injective {a b : Slot} (h : a.index = b.index) : a = b := by
  revert h
  cases a <;> cases b <;> decide

theorem pairwise_all : all.Pairwise (·.index < ·.index) :=
  List.pairwise_map.mp (map_index_all ▸ List.pairwise_lt_finRange count)

theorem exists_index_eq (i : Fin count) : ∃ s : Slot, s.index = i := by
  have hi : i ∈ all.map index := map_index_all ▸ List.mem_finRange i
  obtain ⟨s, -, hs⟩ := List.mem_map.mp hi
  exact ⟨s, hs⟩

def name : Slot → Text
  | operator   => "Operator".toList
  | var        => "Variable".toList
  | function   => "Function".toList
  | call       => "FunctionCall".toList
  | number     => "Number".toList
  | string     => "String".toList
  | leftParen  => "LeftParen".toList
  | rightParen => "RightParen".toList
  | comma      => "Comma".toList
  | sign       => "Sign".toList
  | boolean    => "Boolean".toList
  | path       => "Path".toList
  | plus       => "PositiveSign".toList

theorem name_injective {a b : Slot} (h : a.name = b.name) : a = b := by
  revert h
  cases a <;> cases b <;> decide

end Slot

/-- The slot that a lexeme of the kind fills; a blank fills none. -/
def Kind.slot? : Kind → Option Slot
  | .boolean       => some .boolean
  | .number        => some .number
  | .string        => some .string
  | .var           => some .var
  | .path          => some .path
  | .function      => some .function
  | .operator      => some .operator
  | .leftParen     => some .leftParen
  | .rightParen    => some .rightParen
  | .comma         => some .comma
  | .plus | .minus => some .sign
  | .blank         => none

/-- A set of slots. -/
@[ext] structure Slots where
  /-- For each index, whether the slot with the index is a member. -/
  flags : Vector Bool Slot.count

namespace Slots

def empty : Slots := ⟨.replicate Slot.count false⟩

def has (S : Slots) (s : Slot) : Bool := S.flags[s.index]

/-- The set with one member more. -/
def add (S : Slots) (s : Slot) : Slots := ⟨S.flags.set s.index true⟩

def ofList (l : List Slot) : Slots := l.foldl add empty

instance : Membership Slot Slots := ⟨fun S s => S.has s = true⟩

instance (s : Slot) (S : Slots) : Decidable (s ∈ S) := inferInstanceAs (Decidable (S.has s = true))

theorem mem_iff {s : Slot} {S : Slots} : s ∈ S ↔ S.has s = true := Iff.rfl

theorem ext_mem {S T : Slots} (h : ∀ s, s ∈ S ↔ s ∈ T) : S = T := by
  ext i hi
  obtain ⟨s, hs⟩ := Slot.exists_index_eq ⟨i, hi⟩
  obtain rfl : s.index.val = i := congrArg Fin.val hs
  exact Bool.eq_iff_iff.mpr (h s)

theorem notMem_empty (s : Slot) : s ∉ empty := by
  simp [mem_iff, has, empty]

theorem mem_add {S : Slots} {s t : Slot} : t ∈ S.add s ↔ t = s ∨ t ∈ S := by
  rw [mem_iff, mem_iff, has, has, add, Fin.getElem_fin, Fin.getElem_fin, Vector.getElem_set]
  split
  · rename_i h
    obtain rfl := Slot.index_injective (Fin.ext h)
    exact iff_of_true rfl (.inl rfl)
  · rename_i h
    have hne : t ≠ s := fun he => h (he ▸ rfl)
    exact (or_iff_right hne).symm

theorem mem_foldl_add {S : Slots} {s : Slot} {l : List Slot} :
    s ∈ l.foldl add S ↔ s ∈ l ∨ s ∈ S := by
  induction l generalizing S with
  | nil => simp
  | cons t l ih => rw [List.foldl_cons, ih, mem_add, List.mem_cons, or_left_comm, or_assoc]

@[simp] theorem mem_ofList {s : Slot} {l : List Slot} : s ∈ ofList l ↔ s ∈ l := by
  rw [ofList, mem_foldl_add, or_iff_left (notMem_empty s)]

/-- The members, in the order of `Slot.all`. -/
def toList (S : Slots) : List Slot := Slot.all.filter (· ∈ S)

@[simp] theorem mem_toList {s : Slot} {S : Slots} : s ∈ S.toList ↔ s ∈ S := by
  simp [toList, Slot.mem_all]

theorem pairwise_toList (S : Slots) : S.toList.Pairwise (·.index < ·.index) :=
  Slot.pairwise_all.filter _

@[simp] theorem ofList_toList (S : Slots) : ofList S.toList = S := ext_mem fun s => by simp

instance : DecidableEq Slots := fun S T =>
  decidable_of_iff (S.toList = T.toList)
    ⟨fun h => by rw [← ofList_toList S, h, ofList_toList], fun h => h ▸ rfl⟩

/-- Whether a lexeme of the kind may come next. -/
def admits (S : Slots) (k : Kind) : Bool :=
  (k = .plus && S.has .plus) ||
    match k.slot? with
    | some s => S.has s
    | none   => true

/-- The members' names between braces. -/
def render (S : Slots) : Text :=
  ['\x7b'] ++ ", ".toList.intercalate (S.toList.map Slot.name) ++ ['\x7d']

end Slots

end RuleCheck
