import HouseRules.LogLevel
import HouseRules.Settings
import HouseRules.Text.Blank

/-! The configuration that a settings tree holds. A missing field has its default, and a value
of another type is refused. A section of known fields may also be an array of their values in
order. -/

namespace HouseRules

/-- Where rules come from and how they are run. -/
structure Config where
  rules : RuleSettings
  configRoot : Option String
  python : String
  timeoutSecs : Nat
  logLevel : String
  logJson : Bool
  logFile : Option String
  metadata : Fields

namespace Config

/-- The time that one rule may take, in seconds; no limit when it is zero. -/
def timeout (c : Config) : Option Nat := if c.timeoutSecs = 0 then none else some c.timeoutSecs

/-! ### Defaults -/

/-- The settings that hold when nothing is configured. -/
def defaults : Fields := Fields.ofList [
  ("rules", .object (Fields.ofList [
    ("source", .array []), ("exclude", .array []), ("include", .array [])])),
  ("paths", .object [("config_root", .null)]),
  ("execution", .object [("python", .string "python3"), ("timeout_secs", .int 600)]),
  ("logging", .object (Fields.ofList [
    ("level", .string "info"), ("json_format", .bool false), ("file_output", .null)])),
  ("meta", .object [])]

/-! ### Reading -/

/-- The field of a section, by its name or its position. -/
def member? (part : Value) (name : String) (position : Nat) : Option (Option Value) :=
  match part with
  | .object fields => some (Fields.get? name fields)
  | .array items => some items[position]?
  | _ => none

/-- A member read if it is there. -/
def readOr {α : Type} (default : α) (read : Value → Option α) : Option Value → Option α
  | none => some default
  | some v => read v

def natural? : Value → Option Nat
  | .int n => if 0 ≤ n then some n.toNat else none
  | _ => none

def bool? : Value → Option Bool
  | .bool b => some b
  | _ => none

def path? : Value → Option (Option String)
  | .null => some none
  | .string s => some (some s)
  | _ => none

mutual

/-- A value in which null stands for each number that is not finite. -/
def storable : Value → Value
  | .float x => if x.isFinite then .float x else .null
  | .array items => .array (storableItems items)
  | .object fields => .object (storableFields fields)
  | v => v

def storableItems : List Value → List Value
  | [] => []
  | v :: vs => storable v :: storableItems vs

def storableFields : List (String × Value) → List (String × Value)
  | [] => []
  | (n, v) :: fs => (n, storable v) :: storableFields fs

end

def metadata? : Value → Option Fields
  | .object fields => some (storableFields fields)
  | _ => none

/-- The selection of rules in a section. -/
def rules? (v : Value) : Option RuleSettings := do
  let list (name : String) (position : Nat) : Option (List String) := do
    readOr [] Value.strings? (← member? v name position)
  return ⟨← list "source" 0, ← list "exclude" 1, ← list "include" 2⟩

/-- The configuration in merged settings. -/
def read? (settings : Fields) : Option Config := do
  let part (name : String) : Value := (settings.get? name).getD (.object [])
  let paths := part "paths"
  let execution := part "execution"
  let logging := part "logging"
  return {
    rules := ← rules? (part "rules")
    configRoot := ← readOr none path? (← member? paths "config_root" 0)
    python := ← readOr "python3" Value.string? (← member? execution "python" 0)
    timeoutSecs := ← readOr 600 natural? (← member? execution "timeout_secs" 1)
    logLevel := ← readOr "info" Value.string? (← member? logging "level" 0)
    logJson := ← readOr false bool? (← member? logging "json_format" 1)
    logFile := ← readOr none path? (← member? logging "file_output" 2)
    metadata := ← metadata? (part "meta") }

/-- Fails unless the level of logging is known and there is an interpreter. -/
def validate (c : Config) : Except Error Unit := do
  let _ ← LogLevel.parse c.logLevel
  if Text.isBlankString c.python then
    throw (.configuration "Execution interpreter (execution.python) cannot be empty" none)

end Config

end HouseRules
