import HouseRules.Value.Basic

/-! Merging settings: objects are merged field by field, and of any other two values the later
counts. -/

namespace HouseRules.Value

mutual

/-- A value with a later one merged into it. -/
def merge : Value → Value → Value
  | .object old, .object new => .object (mergeFields old new)
  | _, new => new

/-- Fields with later ones merged into them. -/
def mergeFields (old : Fields) : List (String × Value) → Fields
  | [] => old
  | (k, v) :: rest =>
    let merged := match Fields.get? k old with
      | some w => merge w v
      | none => v
    mergeFields (Fields.insert k merged old) rest

end

end HouseRules.Value
