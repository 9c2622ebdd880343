import HouseRules.Path
import HouseRules.Text.Lines
import HouseRules.Value.Basic

/-! Rules as they were discovered. -/

namespace HouseRules

/-- A discovered rule: where its function stands, what it declares, and whether the filter
excluded it. A parameter without a default has the value null. -/
structure Rule where
  id : String
  description : String
  ruleset : String
  location : String
  function : String
  excluded : Bool
  parameters : Fields
  deriving Inhabited

namespace Rule

def isEnabled (r : Rule) : Bool := !r.excluded

/-- The name of the module that holds the function. -/
def moduleName? (r : Rule) : Option String := Path.fileStem? r.location

/-- The directory in which the module is found. -/
def moduleDir? (r : Rule) : Option String := Path.parent? r.location

/-- The first line of the description. -/
def summary (r : Rule) : String := (Text.linesOf r.description).headD ""

def declares (r : Rule) (name : String) : Bool := r.parameters.contains name

end Rule

end HouseRules
