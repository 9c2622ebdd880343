import HouseRules.Error
import HouseRules.Rule.Basic
import HouseRules.Settings

/-! The keyword arguments of a rule: its declared defaults, where a string that starts with
`settings:` is looked up, and the two values that every project has. -/

namespace HouseRules

/-- What rules may draw arguments from. -/
structure ProjectContext where
  workingDir : String
  metadata : Fields
  settings : Value

namespace Rule

/-- The path in a default that asks for a setting. -/
def settingPath? : Value → Option String
  | .string s => Text.dropStart? "settings:" s
  | _ => none

/-- A default with its setting looked up. -/
def resolveDefault (r : Rule) (context : ProjectContext) (default : Value) :
    Except Error Value :=
  match settingPath? default with
  | none => .ok default
  | some path =>
    match context.settings.lookup? path with
    | some v => .ok v
    | none => .error (.settingNotFound path r.id)

/-- The final value of a parameter whose default has the given value after lookup. -/
def implicit (context : ProjectContext) (name : String) (value : Value) : Value :=
  if name = "project_dir" then .string context.workingDir
  else if name = "meta" then .object context.metadata
  else value

/-- The arguments of a rule, parameter by parameter in the order of their names. -/
def resolveArguments (r : Rule) (context : ProjectContext) : Except Error Fields :=
  r.parameters.mapM fun (name, default) => do
    let value ← r.resolveDefault context default
    return (name, implicit context name value)

end Rule

end HouseRules
