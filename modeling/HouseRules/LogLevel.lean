import HouseRules.Error

/-! How much is logged. -/

namespace HouseRules

inductive LogLevel where
  | trace
  | debug
  | info
  | warn
  | error
  deriving DecidableEq

namespace LogLevel

def name : LogLevel → String
  | trace => "TRACE"
  | debug => "DEBUG"
  | info => "INFO"
  | warn => "WARN"
  | error => "ERROR"

/-- The level that a word names in any letter case. -/
def parse? (word : String) : Option LogLevel :=
  match String.ofList (word.toList.map Char.toLower) with
  | "trace" => some trace
  | "debug" => some debug
  | "info" => some info
  | "warn" | "warning" => some warn
  | "error" => some error
  | _ => none

/-- The level that a word names, or the error that says which words there are. -/
def parse (word : String) : Except Error LogLevel :=
  match parse? word with
  | some level => .ok level
  | none => .error (.configuration
      ("Invalid log level: " ++ word ++ ". Use trace, debug, info, warn, or error") none)

end LogLevel

end HouseRules
