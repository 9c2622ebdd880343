import HouseRules.Error
import HouseRules.Json.Writer
import HouseRules.Rule.Basic

/-! Calls of rule functions. -/

namespace HouseRules

/-- One call: the directory and the module to import from, the function, and its keyword
arguments. -/
structure Invocation where
  ruleId : String
  moduleDir : String
  moduleName : String
  function : String
  arguments : Fields

namespace Invocation

/-- The call of a rule with its final arguments. -/
def ofRule (r : Rule) (arguments : Fields) : Except Error Invocation :=
  match r.moduleName?, r.moduleDir? with
  | none, _ => .error (.execution r.id ("cannot derive module name from " ++ r.location))
  | _, none => .error (.execution r.id ("rule location " ++ r.location ++ " has no parent"))
  | some name, some dir => .ok ⟨r.id, dir, name, r.function, arguments⟩

/-- The compact JSON text in which a call is handed to the interpreter. -/
def payload (i : Invocation) : List Char :=
  Json.writeObject [
    ("rule_id", Json.writeString i.ruleId),
    ("module_dir", Json.writeString i.moduleDir),
    ("module", Json.writeString i.moduleName),
    ("function", Json.writeString i.function),
    ("kwargs", Json.write (.object i.arguments))]

end Invocation

end HouseRules
