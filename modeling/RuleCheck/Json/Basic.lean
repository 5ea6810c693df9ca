import RuleCheck.Text.Basic

/-!
# Json — values

The values of JSON that reports need.  The numbers are natural, and the members of an object keep
their order.
-/

namespace RuleCheck

inductive Json where
  | bool (b : Bool)
  | number (n : Nat)
  | string (s : Text)
  | array (items : List Json)
  | object (members : List (Text × Json))

namespace Json

/-- An object of the members that have a value. -/
def ofMembers (members : List (Text × Option Json)) : Json :=
  object (members.filterMap fun (name, value) => value.map (name, ·))

end Json

end RuleCheck
