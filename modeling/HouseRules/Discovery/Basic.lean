import HouseRules.Cache
import HouseRules.Discovery.RuleFile
import HouseRules.FileTree.Paths
import HouseRules.Filter.Basic
import HouseRules.Settings
import HouseRules.Text.Utf8

/-! Discovery of rules in a file tree. Each directory directly in the storage of a source is a
ruleset, and each file directly in that with the extension `py` is a rule file. Both are visited
in the order of their names; the first error ends discovery. -/

namespace HouseRules.Discovery

/-- The paths of what stands directly in a directory, in the order of the names. -/
def entriesIn (t : FileTree) (dir : String) : Except DiscoveryError (List String) :=
  match t.listing? dir with
  | none => .error .walk
  | some inside => .ok (inside.map fun e => Path.join dir e.1)

/-- Whether a path leads to a rule file. -/
def isRuleFile (t : FileTree) (p : String) : Bool :=
  t.isFile p && Path.extension? p = some "py"

/-- The rules in one file. -/
def rulesInFile (t : FileTree) (f : Filter) (ruleset path : String) :
    Except DiscoveryError (List Rule) :=
  match (t.read? path).bind Text.decode? with
  | none => .error (.unreadable path)
  | some source =>
    RuleFile.parse ⟨Path.absolute (FileTree.textOf t.cwd) path, ruleset, f.isEnabled⟩ source

/-- The rules in one ruleset. -/
def rulesInRuleset (t : FileTree) (f : Filter) (dir : String) :
    Except DiscoveryError (List Rule) := do
  let ruleset := rulesetName ((Path.fileName? dir).getD "")
  let files ← entriesIn t dir
  return (← (files.filter (isRuleFile t)).mapM (rulesInFile t f ruleset)).flatten

/-- The rules in the storage of one source. -/
def rulesInStorage (t : FileTree) (f : Filter) (storage : String) :
    Except DiscoveryError (List Rule) := do
  let dirs ← entriesIn t storage
  return (← (dirs.filter t.isDirectory).mapM (rulesInRuleset t f)).flatten

/-- The rules in a storage under lists of patterns. -/
def discover (t : FileTree) (storage : String) (exclude reinstate : List String) :
    Except DiscoveryError (List Rule) := do
  rulesInStorage t (← Filter.ofLists exclude reinstate) storage

/-- The rules of one source in the cache; none when it has no directory there. -/
def rulesOfSource (t : FileTree) (f : Filter) (rulesDir location : String) :
    Except DiscoveryError (List Rule) :=
  let storage := Source.storage rulesDir location
  if t.isDirectory storage then rulesInStorage t f storage else .ok []

/-- The rules of all sources, in the order in which they are configured. -/
def listRules (t : FileTree) (s : RuleSettings) (rulesDir : String) :
    Except DiscoveryError (List Rule) := do
  let f ← Filter.ofLists s.exclude s.reinstate
  return (← s.sources.mapM (rulesOfSource t f rulesDir)).flatten

end HouseRules.Discovery
