import HouseRules.Discovery.Error

/-! What can go wrong, and how it is told. -/

namespace HouseRules

/-- Why a command failed. Where a cause is given, it is the text of the error below. -/
inductive Error where
  | plainIo (cause : String)
  | io (message : String) (cause : Option String)
  | json (cause : String)
  | discovery (message : String) (cause : Option DiscoveryError)
  | configuration (message : String) (cause : Option String)
  | settingNotFound (path rule : String)
  | provisioning (message : String) (cause : Option String)
  | execution (rule message : String)
  | timeout (rule : String) (seconds : Nat)
  | unsupportedSource (location : String)
  | notFound (path : String)
  deriving DecidableEq

namespace Error

/-- A failed discovery. -/
def ofDiscovery (cause : DiscoveryError) : Error := .discovery cause.message (some cause)

/-- The message of an error. -/
def message : Error → String
  | plainIo cause => "I/O error: " ++ cause
  | io message _ => "I/O error: " ++ message
  | json cause => "JSON error: " ++ cause
  | discovery message _ => "Discovery error: " ++ message
  | configuration message _ => "Configuration error: " ++ message
  | settingNotFound path rule =>
    "Setting not found: " ++ path ++ " (required by rule " ++ rule ++ ")"
  | provisioning message _ => "Environment provisioning failed: " ++ message
  | execution rule message => "Rule " ++ rule ++ " failed: " ++ message
  | timeout rule seconds =>
    "Rule " ++ rule ++ " timed out after " ++ Text.decimal seconds ++ "s"
  | unsupportedSource location => "Unsupported rule source: " ++ location
  | notFound path => "Not found: " ++ path

/-- The text of the error below, if there is one. -/
def cause? : Error → Option String
  | plainIo cause | json cause => some cause
  | io _ cause | configuration _ cause | provisioning _ cause => cause
  | discovery _ cause => cause.map DiscoveryError.message
  | _ => none

/-! ### Context -/

/-- What was being done, before the text of the error below. -/
def withContext (context cause : String) : String := context ++ ": " ++ cause

def ioContext (context cause : String) : Error := .io (withContext context cause) (some cause)

def configurationContext (context cause : String) : Error :=
  .configuration (withContext context cause) (some cause)

def provisioningContext (context cause : String) : Error :=
  .provisioning (withContext context cause) (some cause)

end Error

end HouseRules
