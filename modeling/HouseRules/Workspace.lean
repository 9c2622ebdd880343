import HouseRules.Config.Load
import HouseRules.Discovery.Basic
import HouseRules.Environment
import HouseRules.Fetch
import HouseRules.Rule.Catalog

/-! A project with its configuration: listing its rules, applying them, and updating the cache
and the environment. -/

namespace HouseRules

/-- A project directory with the loaded configuration and the directories that it uses. -/
structure Workspace where
  loaded : LoadedConfig
  layout : Layout
  projectDir : String

namespace Workspace

/-- The workspace of a loaded configuration. -/
def ofLoaded (loaded : LoadedConfig) (projectDir : String) (w : World) :
    Except Error Workspace := do
  return ⟨loaded, ← loaded.config.layout w, projectDir⟩

/-- Loads the configuration of a project, with the file of the user and the variables of this
program. -/
def load (file : Option String) (projectDir : String) (w : World) : Except Error Workspace := do
  ofLoaded (← ConfigQuery.load ⟨file, projectDir, true, "RULEBOOK"⟩ w) projectDir w

variable (s : Workspace)

def sources : List String := s.loaded.config.rules.sources

/-- The rules of every source in the cache. -/
def list (t : FileTree) : Except Error (List Rule) :=
  (Discovery.listRules t s.loaded.config.rules s.layout.rulesDir).mapError Error.ofDiscovery

/-- What rules may draw arguments from. -/
def context : ProjectContext := ⟨s.projectDir, s.loaded.config.metadata, s.loaded.settings⟩

section

open HasWorld (world withWorld)

variable {σ : Type} (launch : Launcher σ)

/-- The environment in which the rules run. -/
def environment : Environment σ :=
  ⟨s.layout, s.loaded.config.python, s.loaded.config.timeout, launch⟩

variable [HasWorld σ]

/-- Runs every enabled rule; without any rules there is nothing to report. -/
def apply : Action σ (Option Report) := do
  let rules ← s.list (world (← get)).tree
  if rules.isEmpty then return none
  return some (← Batch.apply (s.environment launch).runtime s.context s.sources rules)

/-- Fetches every source. -/
def fetchSources : Action σ (List String) := fun x =>
  let (result, tree) := fetchAll s.layout s.projectDir s.sources (world x).tree
  (result, withWorld { world x with tree } x)

/-- Fetches every source and installs what they need. -/
def update : Action σ Unit := do
  let _ ← s.fetchSources
  Batch.update (s.environment launch).runtime s.sources

end

end Workspace

end HouseRules
