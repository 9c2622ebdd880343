import HouseRules.Cache
import HouseRules.Config.Assignment
import HouseRules.Config.Merge
import HouseRules.Config.Typed
import HouseRules.Text.Utf8
import HouseRules.Toml.Document
import HouseRules.World

/-! Loading the configuration: defaults, the file of the user, one further file, and variables
of the environment, each merged into what came before. -/

namespace HouseRules

/-- Which configuration to load: a file that must be there, or else the one in the project
directory if there is one; the file of the user or not; and how names of variables begin. -/
structure ConfigQuery where
  file : Option String
  projectDir : String
  useUserFile : Bool
  variablePrefix : String

/-- A configuration with the whole settings tree and the files that it came from. -/
structure LoadedConfig where
  config : Config
  settings : Value
  files : List String

namespace ConfigQuery

/-- The name of configuration files. -/
def fileName : String := "rulebook.toml"

/-- The file of the user, if it is to be used and there. -/
def userFile? (q : ConfigQuery) (w : World) : Option String :=
  if q.useUserFile then
    (w.configDir?.map fun dir => Path.join (Path.join dir "rulebook") fileName).filter w.tree.isFile
  else none

/-- The further file, if there is one; a file that was asked for must be there. -/
def projectFile? (q : ConfigQuery) (w : World) : Except Error (Option String) :=
  match q.file with
  | some p => if w.tree.isFile p then .ok (some p) else .error (.notFound p)
  | none =>
    let p := Path.join q.projectDir fileName
    .ok (if w.tree.isFile p then some p else none)

/-- The files that contribute, in the order in which they are merged. -/
def files (q : ConfigQuery) (w : World) : Except Error (List String) := do
  return (q.userFile? w).toList ++ (← q.projectFile? w).toList

/-- The failure to make sense of the configuration. -/
def extractionFailed : Error := .configuration "Failed to extract configuration" none

/-- The settings in a file. -/
def readFile (w : World) (p : String) : Except Error Fields :=
  match ((w.tree.read? p).bind Text.decode?).bind Toml.read? with
  | some fields => .ok fields
  | none => .error extractionFailed

/-- The settings in the variables of the environment. -/
def assignments (q : ConfigQuery) (w : World) : List Fields :=
  w.env.filterMap fun (name, text) =>
    match Assignment.key? (q.variablePrefix ++ "_") name with
    | some (k :: ks) => some [(k, Assignment.nested ks (Assignment.read text))]
    | _ => none

/-- All settings merged. -/
def merged (q : ConfigQuery) (w : World) (files : List String) : Except Error Fields := do
  let layers ← files.mapM (readFile w)
  let assigned := (q.assignments w).foldl Value.mergeFields []
  return (layers ++ [assigned]).foldl Value.mergeFields Config.defaults

/-- Loads the configuration. -/
def load (q : ConfigQuery) (w : World) : Except Error LoadedConfig := do
  let files ← q.files w
  let settings ← q.merged w files
  match Config.read? settings with
  | none => throw extractionFailed
  | some config =>
    config.validate
    return ⟨config, .object (Config.storableFields settings), files⟩

end ConfigQuery

namespace Config

/-- The directories that a configuration uses. -/
def layout (c : Config) (w : World) : Except Error Layout :=
  match c.configRoot, w.configDir? with
  | some root, _ => .ok ⟨root⟩
  | none, some dir => .ok ⟨Path.join dir "rulebook"⟩
  | none, none => .error
      (.configuration "No platform config directory; set paths.config_root explicitly" none)

end Config

end HouseRules
