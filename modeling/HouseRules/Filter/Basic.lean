import HouseRules.Filter.Pattern
import HouseRules.Discovery.Error
import HouseRules.Text.Pieces

/-! The execution filter: patterns that exclude rule ids and patterns that reinstate them. -/

namespace HouseRules

/-- A rule is enabled unless a pattern excludes it and none reinstates it. -/
structure Filter where
  excluding : List Pattern
  reinstating : List Pattern
  deriving DecidableEq

namespace Filter

/-- The number of stars from which a single pattern is too large. -/
def patternLimit : Nat := 12000

/-- The number of stars from which a list of patterns is too large. -/
def listLimit : Nat := 16000

/-- The patterns of a list, or the first one that is too large, or the whole list when it is
too large together. -/
def compile (patterns : List String) : Except DiscoveryError (List Pattern) :=
  let compiled := patterns.map Pattern.ofString
  match patterns.find? fun p => patternLimit ≤ (Pattern.ofString p).stars with
  | some p => .error (.invalidPattern p)
  | none =>
    if listLimit ≤ Pattern.stars compiled.flatten then
      .error (.invalidPattern (Text.joinWith ", " patterns))
    else .ok compiled

/-- The filter of two lists of patterns. -/
def ofLists (exclude reinstate : List String) : Except DiscoveryError Filter := do
  return ⟨← compile exclude, ← compile reinstate⟩

/-- The filter that enables every id. -/
def allowAll : Filter := ⟨[], []⟩

def isEnabled (f : Filter) (id : String) : Bool :=
  !f.excluding.any (·.isMatch id.toList) || f.reinstating.any (·.isMatch id.toList)

end Filter

end HouseRules
