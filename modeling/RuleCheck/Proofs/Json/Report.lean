import RuleCheck.Report
import RuleCheck.Proofs.Json.Reading
import RuleCheck.Proofs.Json.Spacing

/-!
# Proofs — Json — reports

What a report says is read back from its JSON object by the names of the members
(`Report.ofJson?`): the column and the message are there only if the expression is rejected.
**A list of reports loses nothing in JSON** (`Report.json_texts`), in either layout.
-/

namespace RuleCheck

namespace Json

/-- The value of the first member of the name. -/
def member? (name : Text) : Json → Option Json
  | object members => members.lookup name
  | _              => none

def bool? : Json → Option Bool
  | bool b => some b
  | _      => none

def number? : Json → Option Nat
  | number n => some n
  | _        => none

def string? : Json → Option Text
  | string s => some s
  | _        => none

/-- What may be missing, but may not be anything else. -/
def optional {α : Type} (read : Json → Option α) : Option Json → Option (Option α)
  | none   => some none
  | some v => (read v).map some

end Json

namespace Report

/-- The report that a JSON object says. -/
def ofJson? (v : Json) : Option Report := do
  let line ← v.member? "line".toList >>= Json.number?
  let expression ← v.member? "expression".toList >>= Json.string?
  let valid ← v.member? "valid".toList >>= Json.bool?
  let column ← Json.optional Json.number? (v.member? "column".toList)
  let message ← Json.optional Json.string? (v.member? "message".toList)
  return ⟨line, expression, valid, column, message⟩

/-- The entries of a list of reports. -/
def entries? : Json → Option (List Report)
  | .array items => items.mapM ofJson?
  | _            => none

/-- **A report is read back from its object**, whichever members it has. -/
theorem ofJson?_toJson (r : Report) : ofJson? r.toJson = some r := by
  obtain ⟨n, e, v, c, m⟩ := r
  cases c <;> cases m <;> rfl

theorem entries?_listToJson (rs : List Report) : entries? (listToJson rs) = some rs := by
  rw [listToJson, entries?]
  induction rs with
  | nil => rfl
  | cons r rs ih =>
      rw [List.map_cons, List.mapM_cons, ofJson?_toJson, ih]
      rfl

theorem listToJson_inj {rs rs' : List Report} (h : listToJson rs = listToJson rs') : rs = rs' := by
  have he := congrArg entries? h
  rw [entries?_listToJson, entries?_listToJson] at he
  exact Option.some.inj he

/-- The reports on expressions with their numbers. -/
def ofItems (items : List (Nat × Text)) : List Report := items.map fun (n, e) => of n e

/-- **JSON loses nothing of a list of reports.**  Both texts write the one value, and no other, and
are read back as it; what it says of each report is its number, its expression, whether that is
accepted, and the column and the message if it is not.  The layouts differ in white space between
tokens only, and either text tells the reports. -/
theorem json_texts (items : List (Nat × Text)) :
    let v := listToJson (ofItems items)
    (∀ w, Json.Writes (.value w) v.compact ↔ w = v) ∧
      (∀ w, Json.Writes (.value w) v.pretty ↔ w = v) ∧
      Json.parse? v.compact = some v ∧ Json.parse? v.pretty = some v ∧
      entries? v = some (items.map fun (n, e) =>
        match check e with
        | .accepted   => ⟨n, e, true, none, none⟩
        | .rejected f => ⟨n, e, false, some f.column, some f.message⟩) ∧
      Json.unspaced v.pretty = v.compact ∧
      ∀ items', let v' := listToJson (ofItems items')
        (v'.compact = v.compact ↔ ofItems items' = ofItems items) ∧
          (v'.pretty = v.pretty ↔ ofItems items' = ofItems items) := by
  intro v
  have hc := Json.writes_compact v
  have hp := Json.writes_pretty v
  have hentries : entries? v = some (items.map fun (n, e) => of n e) := entries?_listToJson _
  refine ⟨hc.iff_eq, hp.iff_eq, hc.parse?_self, hp.parse?_self, ?_,
    Json.unspaced_print Json.Layout.isSpaced_pretty v,
    fun items' => ⟨⟨fun h => ?_, ?_⟩, fun h => ?_, ?_⟩⟩
  · rw [hentries]
    exact congrArg some (List.map_congr_left fun (n, e) _ => of_eq n e)
  · have hw := Json.writes_compact (listToJson (ofItems items'))
    rw [h] at hw
    exact listToJson_inj (hw.value_eq hc)
  · intro h
    rw [h]
  · have hw := Json.writes_pretty (listToJson (ofItems items'))
    rw [h] at hw
    exact listToJson_inj (hw.value_eq hp)
  · intro h
    rw [h]

end Report

end RuleCheck
