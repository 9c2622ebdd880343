import HouseRules.Proofs.Config.Typed
import HouseRules.Proofs.Config.Variables
import HouseRules.Proofs.FileTree.Names
import HouseRules.Proofs.Text.Decoding
import HouseRules.Proofs.Toml.Ordered

/-! Loaded settings are layers merged one over the other: the defaults, the file of the user, one
further file, and variables. What the configuration depends on is read off the layers. -/

namespace HouseRules.ConfigQuery

open Value (atPath? Holds)

variable {q : ConfigQuery} {w : World} {c : LoadedConfig}

/-! ### What a load reads -/

/-- The file that is looked for on behalf of the user. -/
def userPath? (w : World) : Option String :=
  w.configDir?.map fun dir => Path.join (Path.join dir "rulebook") fileName

theorem mapM_readFile {files : List String} {trees : List Fields}
    (h : files.mapM (readFile w) = .ok trees) :
    List.Forall₂ (fun p fields => readFile w p = .ok fields) files trees := by
  induction files generalizing trees with
  | nil =>
    cases h
    exact .nil
  | cons p files ih =>
    rw [List.mapM_cons] at h
    rcases first : readFile w p with e | fields
    · rw [first] at h
      cases h
    rcases later : files.mapM (readFile w) with e | rest
    · rw [first, later] at h
      cases h
    rw [first, later] at h
    cases h
    exact .cons first (ih later)

theorem readFile_isOrdered {p : String} {fields : Fields} (h : readFile w p = .ok fields) :
    (Value.object fields).IsOrdered := by
  rw [readFile] at h
  split at h
  · rename_i found
    cases h
    obtain ⟨text, -, read⟩ := Option.bind_eq_some_iff.1 found
    exact Toml.read?_isOrdered read
  · cases h

/-- The further file is the one that was asked for, or else that of the project if it is there. -/
theorem projectFile?_eq_ok {project : Option String} (h : q.projectFile? w = .ok project) :
    project = q.file.or ((some (Path.join q.projectDir fileName)).filter w.tree.isFile) := by
  rw [projectFile?] at h
  cases asked : q.file with
  | none =>
    rw [asked] at h
    cases h
    rfl
  | some p =>
    simp only [asked] at h
    split at h
    · cases h
      rfl
    · cases h

theorem load_eq (q : ConfigQuery) (w : World) :
    q.load w = (q.files w).bind fun files => (q.merged w files).bind fun settings =>
      match Config.read? settings with
      | none => .error extractionFailed
      | some config => config.validate.bind fun _ =>
        .ok ⟨config, .object (Config.storableFields settings), files⟩ := rfl

/-- What there is when a configuration has been loaded. -/
theorem load_eq_ok (loaded : q.load w = .ok c) :
    ∃ trees settings,
      c.files = (q.userFile? w).toList ++
        (q.file.or ((some (Path.join q.projectDir fileName)).filter w.tree.isFile)).toList ∧
      List.Forall₂ (fun p fields => readFile w p = .ok fields) c.files trees ∧
      settings = (trees ++ [(q.assignments w).foldl Value.mergeFields []]).foldl
        Value.mergeFields Config.defaults ∧
      Config.read? settings = some c.config ∧
      c.settings = .object (Config.storableFields settings) := by
  rw [load_eq, files] at loaded
  rcases project : q.projectFile? w with e | file
  · rw [project] at loaded
    cases loaded
  rw [project] at loaded
  change ((q.merged w ((q.userFile? w).toList ++ file.toList)).bind _) = _ at loaded
  rw [merged] at loaded
  rcases read : ((q.userFile? w).toList ++ file.toList).mapM (readFile w) with e | trees
  · rw [read] at loaded
    cases loaded
  rw [read] at loaded
  simp only [Except.bind, bind, pure, Except.pure] at loaded
  split at loaded
  · cases loaded
  rename_i config typed
  rcases valid : config.validate with e | ⟨⟩
  · rw [valid] at loaded
    cases loaded
  rw [valid] at loaded
  cases loaded
  exact ⟨trees, _, by rw [← projectFile?_eq_ok project], mapM_readFile read, rfl, typed, rfl⟩

/-- A load of files that are found and read, with settings that are a configuration. -/
theorem load_of_read {files : List String} {trees : List Fields} {config : Config}
    (found : q.files w = .ok files) (read : files.mapM (readFile w) = .ok trees)
    (typed : Config.read? ((trees ++ [(q.assignments w).foldl Value.mergeFields []]).foldl
      Value.mergeFields Config.defaults) = some config)
    (valid : config.validate = .ok ()) :
    q.load w = .ok ⟨config, .object (Config.storableFields
      ((trees ++ [(q.assignments w).foldl Value.mergeFields []]).foldl
        Value.mergeFields Config.defaults)), files⟩ := by
  have settings : q.merged w files = .ok ((trees ++ [(q.assignments w).foldl
      Value.mergeFields []]).foldl Value.mergeFields Config.defaults) := by
    rw [merged, read]
    rfl
  rw [load_eq, found, Except.bind, settings, Except.bind, typed]
  simp only [valid, Except.bind]

/-! ### Layers -/

/-- The layers of the settings, with what is stored of their values: the defaults, the trees of
files, and the tree of the variables. -/
def layers (q : ConfigQuery) (w : World) (trees : List Fields) : List Value :=
  (.object Config.defaults :: (trees.map Value.object ++ [Assignment.tree (q.assigned w)])).map
    Config.storable

theorem assigned_tree_isOrdered : (Assignment.tree (q.assigned w)).IsOrdered :=
  Value.isOrdered_foldl_merge
    (fun _ => Assignment.isOrdered_of_mem_nested fun _ => isOrdered_of_mem_assigned)
    (.object List.Pairwise.nil nofun)

theorem isOrdered_of_files {files : List String} {trees : List Fields}
    (read : List.Forall₂ (fun p fields => readFile w p = .ok fields) files trees) :
    ∀ l ∈ trees.map Value.object, l.IsOrdered := by
  induction read with
  | nil => exact nofun
  | cons first _ ih => exact List.forall_mem_cons.2 ⟨readFile_isOrdered first, ih⟩

theorem isOrdered_of_contributed {files : List String} {trees : List Fields}
    (read : List.Forall₂ (fun p fields => readFile w p = .ok fields) files trees) :
    ∀ l ∈ trees.map Value.object ++ [Assignment.tree (q.assigned w)], l.IsOrdered := by
  intro l mem
  obtain mem | mem := List.mem_append.1 mem
  · exact isOrdered_of_files read l mem
  · exact List.mem_singleton.1 mem ▸ assigned_tree_isOrdered

/-- Loaded settings are the layers merged one over the other. -/
theorem settings_eq_foldl {files : List String} {trees : List Fields}
    (read : List.Forall₂ (fun p fields => readFile w p = .ok fields) files trees) :
    Value.object (Config.storableFields
        ((trees ++ [(q.assignments w).foldl Value.mergeFields []]).foldl Value.mergeFields
          Config.defaults)) =
      (((trees.map Value.object ++ [Assignment.tree (q.assigned w)]).map
        Config.storable)).foldl Value.merge (Config.storable (.object Config.defaults)) := by
  rw [← Config.storable_foldl_merge (isOrdered_of_contributed read), ← object_assignments,
    ← Config.storable, object_foldl_mergeFields, List.map_append, List.map_singleton]

/-! ### What a load does not depend on -/

section

variable {p : ConfigQuery} {v : World}

theorem mapM_readFile_congr {files : List String}
    (read : ∀ f ∈ files, readFile v f = readFile w f) :
    files.mapM (readFile v) = files.mapM (readFile w) := by
  induction files with
  | nil => rfl
  | cons f files ih =>
    obtain ⟨first, rest⟩ := List.forall_mem_cons.1 read
    rw [List.mapM_cons, List.mapM_cons, first, ih rest]

/-- A load depends on the files that it looks for, on their contents, and on the assignments. -/
theorem load_congr (user : p.userFile? v = q.userFile? w)
    (project : p.projectFile? v = q.projectFile? w)
    (assigned : p.assignments v = q.assignments w)
    (read : ∀ files, q.files w = .ok files → ∀ f ∈ files, readFile v f = readFile w f) :
    p.load v = q.load w := by
  have same : p.files v = q.files w := by rw [files, files, user, project]
  rw [load, load, same]
  rcases found : q.files w with e | files
  · rfl
  have contents : p.merged v files = q.merged w files := by
    rw [merged, merged, mapM_readFile_congr (read files found), assigned]
  change p.merged v files >>= _ = q.merged w files >>= _
  rw [contents]

theorem readFile_congr {f : String} (h : v.tree.find? f = w.tree.find? f) :
    readFile v f = readFile w f := by
  rw [readFile, readFile, FileTree.read?, FileTree.read?, h]

theorem isFile_congr {f : String} (h : v.tree.find? f = w.tree.find? f) :
    v.tree.isFile f = w.tree.isFile f := by
  rw [FileTree.isFile, FileTree.isFile, h]

theorem userFile?_eq_filter (q : ConfigQuery) (w : World) :
    q.userFile? w = if q.useUserFile then (userPath? w).filter w.tree.isFile else none := rfl

theorem userFile?_congr (options : p.useUserFile = q.useUserFile)
    (path : userPath? v = userPath? w)
    (there : ∀ u, userPath? w = some u → v.tree.find? u = w.tree.find? u) :
    p.userFile? v = q.userFile? w := by
  rw [userFile?_eq_filter, userFile?_eq_filter, options, path]
  cases looked : userPath? w with
  | none => rfl
  | some u => rw [Option.filter_some, Option.filter_some, isFile_congr (there u looked)]

theorem configDir?_congr (env : ∀ name, name = "XDG_CONFIG_HOME" ∨ name = "HOME" →
    v.lookup? name = w.lookup? name) : v.configDir? = w.configDir? := by
  rw [World.configDir?, World.configDir?, env _ (.inl rfl), env _ (.inr rfl)]

theorem assignments_congr (names : p.variablePrefix = q.variablePrefix) (env : v.env = w.env) :
    p.assignments v = q.assignments w := by
  rw [assignments, assignments, names, env]

theorem userPath?_of_userFile? {f : String} (h : q.userFile? w = some f) :
    userPath? w = some f := by
  rw [userFile?_eq_filter] at h
  split at h
  · exact (Option.filter_eq_some_iff.1 h).1
  · cases h

/-- The files of a load in which one is asked for. -/
theorem mem_files_of_asked {f g : String} (asked : q.file = some f) {files : List String}
    (found : q.files w = .ok files) (mem : g ∈ files) : userPath? w = some g ∨ g = f := by
  rw [ConfigQuery.files, projectFile?, asked] at found
  simp only at found
  split at found
  · cases found
    obtain mem | mem := List.mem_append.1 mem
    · exact .inl (userPath?_of_userFile? (Option.mem_toList.1 mem))
    · exact .inr (List.mem_singleton.1 mem)
  · cases found

/-- A file that is asked for takes the place of the one of the project: neither the project
directory nor anything in the file tree other than that file and the one of the user matters. -/
theorem load_of_asked {f : String} (asked : q.file = some f) (dir : String)
    (env : v.env = w.env) (same : v.tree.find? f = w.tree.find? f)
    (user : ∀ u, userPath? w = some u → v.tree.find? u = w.tree.find? u) :
    { q with projectDir := dir }.load v = q.load w := by
  have lookup (name : String) : v.lookup? name = w.lookup? name := by
    rw [World.lookup?, World.lookup?, env]
  have path : userPath? v = userPath? w := by
    rw [userPath?, userPath?, configDir?_congr fun name _ => lookup name]
  refine load_congr (userFile?_congr rfl path user) ?_ (assignments_congr rfl env) ?_
  · simp only [projectFile?, asked, isFile_congr same]
  · intro files found g mem
    obtain looked | rfl := mem_files_of_asked asked found mem
    · exact readFile_congr (user g looked)
    · exact readFile_congr same

/-! ### The variable of the log -/

/-- The variable that sets the log filter. -/
def logVariable (q : ConfigQuery) : String := q.variablePrefix ++ "_LOG"

theorem key?_logVariable (q : ConfigQuery) :
    Assignment.key? (q.variablePrefix ++ "_") q.logVariable = none := by
  have name : q.logVariable.toList = (q.variablePrefix ++ "_").toList ++ "LOG".toList := by
    simp [logVariable, String.toList_append]
  have rest : Assignment.afterPrefix? (q.variablePrefix ++ "_").toList q.logVariable.toList =
      some "LOG".toList := by
    rw [name, Assignment.afterPrefix?, if_pos]
    · rw [List.drop_left]
    · rw [Assignment.lower, Assignment.lower, List.map_append, List.isPrefixOf_iff_prefix]
      exact List.prefix_append _ _
  rw [Assignment.key?, rest]
  rfl

theorem ne_logVariable {name : String} (h : name.toList.getLast? ≠ some 'G') :
    name ≠ q.logVariable := by
  rintro rfl
  apply h
  rw [logVariable, String.toList_append, List.getLast?_append]
  rfl

/-- The variables other than that of the log. -/
def otherVariables (q : ConfigQuery) (w : World) : List (String × String) :=
  w.env.filter fun v => v.1 ≠ q.logVariable

theorem lookup?_eq_find?_otherVariables {name : String} (h : name ≠ q.logVariable) :
    w.lookup? name = ((q.otherVariables w).find? fun v => v.1 = name).map Prod.snd := by
  rw [World.lookup?, otherVariables, List.find?_filter]
  congr 2
  funext x
  by_cases same : x.1 = name
  · simp [same, h]
  · simp [same]

theorem assignments_eq_otherVariables :
    q.assignments w = (q.otherVariables w).filterMap fun (name, text) =>
      match Assignment.key? (q.variablePrefix ++ "_") name with
      | some (k :: ks) => some [(k, Assignment.nested ks (Assignment.read text))]
      | _ => none := by
  rw [assignments, otherVariables, List.filterMap_filter]
  refine List.filterMap_congr fun x _ => ?_
  obtain ⟨name, text⟩ := x
  by_cases same : name = q.logVariable
  · subst same
    simp only [key?_logVariable, ite_self]
  · exact (if_pos (by simpa using same)).symm

/-- The variable of the log does not matter. -/
theorem load_of_otherVariables (tree : v.tree = w.tree)
    (env : q.otherVariables v = q.otherVariables w) : q.load v = q.load w := by
  have lookup {name : String} (h : name.toList.getLast? ≠ some 'G') :
      v.lookup? name = w.lookup? name := by
    rw [lookup?_eq_find?_otherVariables (ne_logVariable h), env,
      ← lookup?_eq_find?_otherVariables (ne_logVariable h)]
  have path : userPath? v = userPath? w := by
    rw [userPath?, userPath?, configDir?_congr]
    rintro name (rfl | rfl)
    · exact lookup (by decide)
    · exact lookup (by decide)
  refine load_congr (userFile?_congr rfl path fun u _ => by rw [tree]) ?_ ?_ fun files _ f _ => ?_
  · rw [projectFile?, projectFile?, tree]
  · rw [assignments_eq_otherVariables, assignments_eq_otherVariables, env]
  · exact readFile_congr (by rw [tree])

end

/-! ### The settings -/

/-- Loading is layering. The files that count are the one of the user and then the one that is
asked for, or else that of the project. Of the defaults, the files and the variables, each stored
value is that of the last layer that has one at its path, later layers having only tables on the
way; a table is there if a layer has it and the later ones have only tables on the way. Variables
none of whose keys begins another give a tree with each value at its key. Each field of the
configuration is what the settings hold for it, by name in a section that is a table and by
position in one that is an array, or the default. Where a file is asked for, nothing else of the
project matters, and the variable of the log never does. -/
theorem load_layering (q : ConfigQuery) (w : World) :
    (∀ c, q.load w = .ok c → Assignment.Compatible (q.assigned w) →
      c.files = (q.userFile? w).toList ++
        (q.file.or ((some (Path.join q.projectDir fileName)).filter w.tree.isFile)).toList ∧
      (∃ trees, List.Forall₂ (fun p fields => readFile w p = .ok fields) c.files trees ∧
        (∀ p v, v.isTable = false →
          (c.settings.atPath? p = some v ↔ ∃ before l after,
            q.layers w trees = before ++ l :: after ∧ l.atPath? p = some v ∧
              ∀ x ∈ after, x.Silent p)) ∧
        ∀ p, Holds (·.isTable = true) p c.settings ↔ ∃ before l after,
          q.layers w trees = before ++ l :: after ∧ Holds (·.isTable = true) p l ∧
            ∀ x ∈ after, x.Open p) ∧
      (∀ p v, v.isTable = false →
        ((Assignment.tree (q.assigned w)).atPath? p = some v ↔
          ∃ x ∈ q.assigned w, ∃ rest, p = x.1 ++ rest ∧ x.2.atPath? rest = some v)) ∧
      (∀ p, Holds (·.isTable = true) p (Assignment.tree (q.assigned w)) ↔
        p = [] ∨ ∃ x ∈ q.assigned w, (p <+: x.1 ∧ p ≠ x.1) ∨
          ∃ rest, p = x.1 ++ rest ∧ Holds (·.isTable = true) rest x.2) ∧
      (∀ f ∈ c.config.fields, f.held c.settings = f.value ∧
        (Value.object Config.defaults).atPath? [f.part, f.name] = some f.default) ∧
      (c.settings.atPath? ["meta"]).getD (.object []) = .object c.config.metadata) ∧
    (∀ f dir v, q.file = some f → v.env = w.env → v.tree.find? f = w.tree.find? f →
      (∀ u, userPath? w = some u → v.tree.find? u = w.tree.find? u) →
      { q with projectDir := dir }.load v = q.load w) ∧
    ∀ v, v.tree = w.tree → q.otherVariables v = q.otherVariables w → q.load v = q.load w := by
  refine ⟨fun c loaded compatible => ?_, fun f dir v asked => load_of_asked asked dir,
    fun v => load_of_otherVariables⟩
  obtain ⟨trees, settings, files, read, rfl, typed, stored⟩ := load_eq_ok loaded
  obtain ⟨held, metadata⟩ := Config.held_of_read? typed
  rw [← stored] at held metadata
  have merged := stored.trans (settings_eq_foldl read)
  have ordered : ∀ l ∈ (trees.map Value.object ++ [Assignment.tree (q.assigned w)]).map
      Config.storable, l.IsOrdered := by
    intro l mem
    obtain ⟨x, inside, rfl⟩ := List.mem_map.1 mem
    exact Config.storable_isOrdered (isOrdered_of_contributed read x inside)
  refine ⟨files, ⟨trees, read, fun p v leaf => ?_, fun p => ?_⟩, fun p v leaf => ?_, fun p => ?_,
    fun f mem => ⟨held f mem, Config.atPath?_defaults c.config f mem⟩, metadata⟩
  · rw [merged, Value.atPath?_foldl_merge_iff _ ordered leaf]
    rfl
  · rw [merged, Value.hasTable_foldl_merge_iff _ ordered]
    rfl
  · exact Assignment.atPath?_tree_iff compatible (fun _ => isOrdered_of_mem_assigned) leaf
  · exact Assignment.hasTable_tree_iff compatible (fun _ => isOrdered_of_mem_assigned)
      fun _ => ne_nil_of_mem_assigned

/-! ### A section that is an array -/

namespace Positional

/-- Settings that give the selection of rules by position, and a number that is not finite. -/
def text : String := "rules = [[\"./a\"]]\nexecution = []\nlimit = nan\n"

/-- A tree with these settings in one file and with whatever else. -/
def tree (others : List (Location × Entry)) : FileTree :=
  ⟨[], (["p"], .directory) :: (["p", "own.toml"], .file (Text.bytesOf text) false) :: others⟩

def world (others : List (Location × Entry)) (env : List (String × String)) : World :=
  ⟨tree others, env, [], 0, false⟩

def query : ConfigQuery := ⟨some "/p/own.toml", "/p", false, "RULEBOOK"⟩

def timeLimit : String × String := ("RULEBOOK_EXECUTION__TIMEOUT_SECS", "5")

def projectFile : Location × Entry := (["p", "rulebook.toml"], .file [] false)

variable {others : List (Location × Entry)} {env : List (String × String)}

theorem find?_own :
    (world others env).tree.find? "/p/own.toml" = some (.file (Text.bytesOf text) false) := by
  have names : FileTree.pathNames "/p/own.toml" = ["p", "own.toml"] := by decide
  have walked : (tree others).walk true FileTree.linkLimit [] ["p", "own.toml"] =
      some ["p", "own.toml"] := by
    rw [FileTree.walk_of_directory (by decide) rfl, FileTree.walk_of_file (by decide) rfl]
    rfl
  exact FileTree.find?_of_walk (by decide) (by decide) (names ▸ walked)

def isNaN : Option Value → Bool
  | some (.float .nan) => true
  | _ => false

theorem eq_of_isNaN {v : Option Value} (h : isNaN v = true) : v = some (.float .nan) := by
  rw [isNaN.eq_def] at h
  split at h
  · rfl
  · cases h

def isNull : Option Value → Bool
  | some .null => true
  | _ => false

theorem eq_of_isNull {v : Option Value} (h : isNull v = true) : v = some .null := by
  rw [isNull.eq_def] at h
  split at h
  · rfl
  · cases h

theorem files_eq : query.files (world others env) = .ok ["/p/own.toml"] := by
  have there : (world others env).tree.isFile "/p/own.toml" = true := by
    rw [FileTree.isFile, find?_own]
  have project : query.projectFile? (world others env) = .ok (some "/p/own.toml") := if_pos there
  rw [files, project]
  rfl

/-- What a load gives with one variable. -/
theorem exists_load : ∃ c fields, query.load (world others [timeLimit]) = .ok c ∧
    readFile (world others [timeLimit]) "/p/own.toml" = .ok fields ∧
    c.config.rules.sources = ["./a"] ∧ c.settings.atPath? ["rules", "source"] = none ∧
    fields.get? "limit" = some (.float .nan) ∧ c.settings.atPath? ["limit"] = some .null := by
  have computed : ((Toml.read? text).any fun fields =>
      let settings := ([fields] ++ [(query.assignments (world [] [timeLimit])).foldl
        Value.mergeFields []]).foldl Value.mergeFields Config.defaults
      let stored := Value.object (Config.storableFields settings)
      (Config.read? settings).any fun c => c.validate.isOk && (c.rules.sources = ["./a"] &&
        ((stored.atPath? ["rules", "source"]).isNone &&
          (isNaN (fields.get? "limit") && isNull (stored.atPath? ["limit"]))))) = true := by
    decide +kernel
  obtain ⟨fields, parsed, computed⟩ := (Option.any_eq_true _ _).1 computed
  obtain ⟨config, typed, checks⟩ := (Option.any_eq_true _ _).1 computed
  obtain ⟨valid, checks⟩ := Bool.and_eq_true_iff.1 checks
  obtain ⟨sources, checks⟩ := Bool.and_eq_true_iff.1 checks
  obtain ⟨nothing, checks⟩ := Bool.and_eq_true_iff.1 checks
  obtain ⟨notANumber, null⟩ := Bool.and_eq_true_iff.1 checks
  have first : readFile (world others [timeLimit]) "/p/own.toml" = .ok fields := by
    rw [readFile, FileTree.read?, find?_own]
    simp only [Option.bind_some, Text.decode?_bytesOf, parsed]
  have read : ["/p/own.toml"].mapM (readFile (world others [timeLimit])) = .ok [fields] := by
    rw [List.mapM_cons, first]
    rfl
  rcases valid' : config.validate with e | ⟨⟩
  · rw [valid'] at valid
    cases valid
  exact ⟨_, fields, load_of_read files_eq read typed valid', first, of_decide_eq_true sources,
    Option.isNone_iff_eq_none.1 nothing, eq_of_isNaN notANumber, eq_of_isNull null⟩

theorem compatible : Assignment.Compatible (query.assigned (world others [timeLimit])) := by
  -- there is no second variable
  rw [assigned, world, List.filterMap_cons, List.filterMap_nil]
  split <;> simp [Assignment.Compatible]

end Positional

open Positional in
/-- A field is read by position, although the settings hold nothing at its path; and the settings
hold null where the last layer has a number that is not finite. -/
theorem value_ne_of_positional : ∃ c fields, query.load (world [] [timeLimit]) = .ok c ∧
    Assignment.Compatible (query.assigned (world [] [timeLimit])) ∧
    readFile (world [] [timeLimit]) "/p/own.toml" = .ok fields ∧
    (∃ f ∈ c.config.fields, (c.settings.atPath? [f.part, f.name]).getD f.default ≠ f.value) ∧
    (Value.object fields).atPath? ["limit"] = some (.float .nan) ∧
    c.settings.atPath? ["limit"] = some .null := by
  obtain ⟨c, fields, loaded, read, sources, nothing, notANumber, null⟩ := @exists_load []
  refine ⟨c, fields, loaded, compatible, read, ⟨_, List.mem_cons_self, ?_⟩, ?_, null⟩
  · simp only [nothing, sources]
    exact nofun
  · rw [Value.atPath?_singleton, notANumber]

open Positional in
/-- Loading with a project file that is not asked for and with a variable of the log. -/
theorem load_layering_positional :
    (∃ c, query.load (world [projectFile] [timeLimit]) = .ok c ∧
      Assignment.Compatible (query.assigned (world [projectFile] [timeLimit])) ∧
      ∀ f ∈ c.config.fields, f.held c.settings = f.value) ∧
    query.load (world [] [timeLimit]) = query.load (world [projectFile] [timeLimit]) ∧
    query.load (world [projectFile] [timeLimit, ("RULEBOOK_LOG", "debug")]) =
      query.load (world [projectFile] [timeLimit]) := by
  obtain ⟨c, -, loaded, -⟩ := @exists_load [projectFile]
  obtain ⟨layered, asked, log⟩ := load_layering query (world [projectFile] [timeLimit])
  refine ⟨⟨c, loaded, compatible, fun f mem => ?_⟩, ?_, ?_⟩
  · exact ((layered c loaded compatible).2.2.2.2.1 f mem).1
  · exact asked "/p/own.toml" "/p" (world [] [timeLimit]) rfl rfl (find?_own.trans find?_own.symm)
      nofun
  · exact log _ rfl (by decide)

end HouseRules.ConfigQuery
