import HouseRules.Digest.Sha256
import HouseRules.Path

/-! Where things are kept: below a root there is the rule cache, with a directory for each
source, and the environment in which rules run. -/

namespace HouseRules

/-! ### Sources -/

namespace Source

/-- The identifier of a source in the cache: the digest of its location exactly as it is
configured. -/
def hash (location : String) : String := Digest.hexOf location

/-- The directory of a source in a rule cache. -/
def storage (rulesDir location : String) : String := Path.join rulesDir (hash location)

/-- Whether a location names a remote source. -/
def isRemote (location : String) : Bool :=
  Text.contains "://".toList location.toList || Text.contains "git@".toList location.toList

/-- The directory that a local location names, read from a base directory. -/
def resolve (base location : String) : String := Path.join base location

end Source

/-- The name of a ruleset: that of its directory without the ending `-ruleset`. -/
def rulesetName (directory : String) : String :=
  (Text.dropEnd? "-ruleset" directory).getD directory

/-! ### Directories -/

/-- The directories below a root. -/
structure Layout where
  root : String
  deriving DecidableEq

namespace Layout

/-- The rule cache. -/
def rulesDir (l : Layout) : String := Path.join l.root "rules"

/-- The environment. -/
def environmentDir (l : Layout) : String := Path.join l.root "rules-venv"

/-- The directory of a source in the cache. -/
def storage (l : Layout) (location : String) : String := Source.storage l.rulesDir location

/-- The list of what a source needs. -/
def requirements (l : Layout) (location : String) : String :=
  Path.join (l.storage location) "requirements.txt"

/-- The interpreter of the environment. -/
def interpreter (l : Layout) : String :=
  Path.join (Path.join l.environmentDir "bin") "python"

end Layout

end HouseRules
