import HouseRules.Text.Digits

/-! What can go wrong while rules are discovered. -/

namespace HouseRules

/-- A place in a text: line and column from zero, the column in bytes. -/
structure Place where
  line : Nat
  column : Nat
  deriving DecidableEq

/-- Why rules could not be discovered. -/
inductive DiscoveryError where
  | unreadable (path : String)
  | walk
  | malformed (file : String) (place : Place)
  | missingKey (file function : String)
  | unsupportedDefault (file function parameter expression : String)
  | invalidPattern (pattern : String)
  deriving DecidableEq

/-- The message of an error, without the cause that the operating system gives. -/
def DiscoveryError.message : DiscoveryError → String
  | unreadable path => "I/O error reading " ++ path
  | walk => "Directory walk failed"
  | malformed file place =>
    "Syntax error in " ++ file ++ " at line " ++ Text.decimal (place.line + 1) ++ ", column " ++
      Text.decimal (place.column + 1)
  | missingKey file function =>
    "Rule function `" ++ function ++ "` in " ++ file ++
      " has no `:key` directive in its docstring"
  | unsupportedDefault file function parameter expression =>
    "Parameter `" ++ parameter ++ "` of rule function `" ++ function ++ "` in " ++ file ++
      " has a non-literal default: " ++ expression
  | invalidPattern pattern => "Invalid rule pattern `" ++ pattern ++ "`"

end HouseRules
