import HouseRules.Proofs.Discovery.Functions
import HouseRules.Proofs.Discovery.Visits
import HouseRules.Proofs.FileTree.Ways
import HouseRules.Proofs.Path.Moves
import HouseRules.Rule.Invocation

/-! Calls of discovered rules. The location of a rule is the path of its file from the root, which
ends with the names of the ruleset's directory and of the file. So the directory and the module that
a call imports from make it up again, and no two files are imported alike. -/

namespace HouseRules.Discovery

-- the digits of a digest have no part in where rules are found
attribute [local irreducible] Source.hash

/-- A rule is one of those in a file that is visited for a source. -/
structure FoundIn (t : FileTree) (s : RuleSettings) (rulesDir storage : String) (v : Visit)
    (r : Rule) : Prop where
  exists_source : ∃ source ∈ s.sources, storage = Source.storage rulesDir source
  isVisited : IsVisited t storage v
  mem : ∃ f rules, Filter.ofLists s.exclude s.reinstate = .ok f ∧
    v.rules t f storage = .ok rules ∧ r ∈ rules

/-- A call of a rule imports from the rule's location. -/
structure IsCallOf (r : Rule) (arguments : Fields) (i : Invocation) : Prop where
  ruleId : i.ruleId = r.id
  function : i.function = r.function
  arguments : i.arguments = arguments
  location : Path.join i.moduleDir (i.moduleName ++ ".py") = r.location

variable {t : FileTree} {s : RuleSettings} {rulesDir storage storage' : String} {v v' : Visit}
  {r r' : Rule}

/-! ### Where rules are found -/

theorem describes_of_rulesInFile {f : Filter} {ruleset path : String} {rules : List Rule}
    (h : rulesInFile t f ruleset path = .ok rules) (hr : r ∈ rules) :
    ∃ fn, RuleFile.Describes
      ⟨Path.absolute (FileTree.textOf t.cwd) path, ruleset, f.isEnabled⟩ fn r := by
  obtain ⟨fn, hfn⟩ := exists_rule_of_rulesInFile h hr
  exact ⟨fn, RuleFile.rule_eq_ok_iff.1 hfn⟩

/-- Every rule that is listed is in a file that is visited. -/
theorem exists_foundIn_of_listRules {rules : List Rule} (wf : t.WellFormed)
    (listed : listRules t s rulesDir = .ok rules) (hr : r ∈ rules) :
    ∃ storage v, FoundIn t s rulesDir storage v r := by
  rcases compiled : Filter.ofLists s.exclude s.reinstate with e | f
  · rw [listRules, compiled] at listed
    cases listed
  rw [listRules_eq compiled, gather_rulesOfSource wf] at listed
  obtain ⟨⟨storage, v⟩, hx, inFile, hrules, hr⟩ := exists_of_mem_gather listed hr
  obtain ⟨source, hsource, hx⟩ := List.mem_flatMap.1 hx
  obtain ⟨w, hw, hpair⟩ := List.mem_map.1 hx
  obtain ⟨rfl, rfl⟩ := Prod.mk.inj hpair
  exact ⟨_, w, ⟨source, hsource, rfl⟩, (mem_visits wf w).1 hw, f, inFile, compiled, hrules, hr⟩

namespace FoundIn

theorem location_eq (h : FoundIn t s rulesDir storage v r) :
    r.location = Path.absolute (FileTree.textOf t.cwd) (v.path storage) := by
  obtain ⟨f, rules, -, hrules, hr⟩ := h.mem
  obtain ⟨fn, describes⟩ := describes_of_rulesInFile hrules hr
  exact describes.location

/-- A location ends with the names of the storage, of the ruleset's directory and of the file. -/
theorem location_eq_join (wf : t.WellFormed) (h : FoundIn t s rulesDir storage v r) :
    r.location =
      Path.join (Path.join (Path.absolute (FileTree.textOf t.cwd) storage) v.directory) v.file := by
  have hcwd : FileTree.textOf t.cwd ≠ "" := by simp [FileTree.textOf]
  rw [h.location_eq, Visit.path,
    Path.absolute_join (isName_of_holds wf h.isVisited.holds_file) hcwd,
    Path.absolute_join (isName_of_holds wf h.isVisited.holds_directory) hcwd]

theorem isAbsolute_location (h : FoundIn t s rulesDir storage v r) :
    Path.isAbsolute r.location = true := by
  rw [h.location_eq]
  refine Path.isAbsolute_absolute ?_ _
  simp [Path.isAbsolute, FileTree.textOf]

/-! ### Modules of rules -/

theorem moduleDir?_eq (wf : t.WellFormed) (h : FoundIn t s rulesDir storage v r) :
    r.moduleDir? =
      some (Path.join (Path.absolute (FileTree.textOf t.cwd) storage) v.directory) := by
  rw [Rule.moduleDir?, h.location_eq_join wf]
  exact Path.parent?_join (isName_of_holds wf h.isVisited.holds_directory)
    (isName_of_holds wf h.isVisited.holds_file) _

/-- The module of a rule is the name of its file without the ending, whatever dots it has. -/
theorem exists_moduleName? (wf : t.WellFormed) (h : FoundIn t s rulesDir storage v r) :
    ∃ stem, r.moduleName? = some stem ∧ v.file = stem ++ ".py" := by
  obtain ⟨stem, hstem, hfile⟩ := h.isVisited.extension
  have spelled : v.file = stem ++ "." ++ "py" := by rw [hfile, String.append_assoc]; rfl
  refine ⟨stem, ?_, hfile⟩
  rw [Rule.moduleName?, h.location_eq_join wf, spelled]
  exact Path.fileStem?_join (spelled ▸ isName_of_holds wf h.isVisited.holds_file) _ hstem
    (by decide)

theorem exists_call (wf : t.WellFormed) (h : FoundIn t s rulesDir storage v r)
    (arguments : Fields) :
    ∃ i, Invocation.ofRule r arguments = .ok i ∧ IsCallOf r arguments i := by
  obtain ⟨stem, hname, hfile⟩ := h.exists_moduleName? wf
  rw [Invocation.ofRule, hname, h.moduleDir?_eq wf]
  refine ⟨_, rfl, rfl, rfl, rfl, ?_⟩
  rw [h.location_eq_join wf, hfile]

/-- Rules of one module in one directory are from one file. -/
theorem eq_of_modules (wf : t.WellFormed) (h : FoundIn t s rulesDir storage v r)
    (h' : FoundIn t s rulesDir storage' v' r') (dirs : r.moduleDir? = r'.moduleDir?)
    (names : r.moduleName? = r'.moduleName?) : storage = storage' ∧ v = v' := by
  have hcwd : FileTree.textOf t.cwd ≠ "" := by simp [FileTree.textOf]
  obtain ⟨stem, hname, hfile⟩ := h.exists_moduleName? wf
  obtain ⟨stem', hname', hfile'⟩ := h'.exists_moduleName? wf
  obtain rfl : stem = stem' := Option.some.inj (hname.symm.trans (names.trans hname'))
  have same := Option.some.inj ((h.moduleDir?_eq wf).symm.trans (dirs.trans (h'.moduleDir?_eq wf)))
  obtain ⟨source, -, rfl⟩ := h.exists_source
  obtain ⟨source', -, rfl⟩ := h'.exists_source
  -- the directories end with the digests of the sources and the names of the rulesets
  rw [Source.storage, Source.storage, Path.absolute_join (Source.isName_hash _) hcwd,
    Path.absolute_join (Source.isName_hash _) hcwd] at same
  obtain ⟨storages, directories⟩ := Path.join_join_inj (Source.isName_hash _)
    (Source.isName_hash _) (isName_of_holds wf h.isVisited.holds_directory)
    (isName_of_holds wf h'.isVisited.holds_directory) same
  have digests := congrArg Path.fileName? storages
  rw [Path.fileName?_join (Source.isName_hash _), Path.fileName?_join (Source.isName_hash _)]
    at digests
  refine ⟨by rw [Source.storage, Source.storage, Option.some.inj digests], ?_⟩
  rcases v with ⟨directory, file⟩
  rcases v' with ⟨directory', file'⟩
  exact Visit.mk.injEq .. ▸ ⟨directories, hfile.trans hfile'.symm⟩

end FoundIn

/-! ### Calls -/

theorem modules_of_ofRule {arguments : Fields} {i : Invocation}
    (h : Invocation.ofRule r arguments = .ok i) :
    r.moduleDir? = some i.moduleDir ∧ r.moduleName? = some i.moduleName := by
  rw [Invocation.ofRule] at h
  split at h
  · cases h
  · cases h
  · rename_i name dir hname hdir
    cases h
    exact ⟨hdir, hname⟩

/-- Every rule that is listed is in a visited file, has the path of that from the root as its
location, and can be called from it with any arguments. Rules from different files are never called
from the same module of the same directory. -/
theorem listRules_calls {rules : List Rule} (wf : t.WellFormed)
    (listed : listRules t s rulesDir = .ok rules) :
    (∀ r ∈ rules, Path.isAbsolute r.location = true ∧
      (∃ storage v, FoundIn t s rulesDir storage v r ∧
        r.location = Path.absolute (FileTree.textOf t.cwd) (v.path storage)) ∧
      ∀ arguments, ∃ i, Invocation.ofRule r arguments = .ok i ∧ IsCallOf r arguments i) ∧
    ∀ r ∈ rules, ∀ r' ∈ rules, ∀ storage v storage' v', FoundIn t s rulesDir storage v r →
      FoundIn t s rulesDir storage' v' r' → storage ≠ storage' ∨ v ≠ v' →
      ∀ arguments arguments' i i', Invocation.ofRule r arguments = .ok i →
        Invocation.ofRule r' arguments' = .ok i' →
        ¬(i.moduleDir = i'.moduleDir ∧ i.moduleName = i'.moduleName) := by
  constructor
  · intro r hr
    obtain ⟨storage, v, found⟩ := exists_foundIn_of_listRules wf listed hr
    exact ⟨found.isAbsolute_location, ⟨storage, v, found, found.location_eq⟩, found.exists_call wf⟩
  · rintro r - r' - storage v storage' v' found found' different arguments arguments' i i' hi hi'
      ⟨dirs, names⟩
    obtain ⟨hdir, hname⟩ := modules_of_ofRule hi
    obtain ⟨hdir', hname'⟩ := modules_of_ofRule hi'
    obtain ⟨rfl, rfl⟩ := found.eq_of_modules wf found' (by rw [hdir, hdir', dirs])
      (by rw [hname, hname', names])
    obtain different | different := different <;> exact different rfl

/-! ### A cache with a rule -/

/-- A file with one rule. -/
def sampleSource : String := "def f(): \":key a\"\n"

def sampleContent : List UInt8 := sampleSource.toList.map fun c => UInt8.ofNat c.toNat

/-- Whether what is read is one function without parameters that documents a rule. -/
def isSampleModule : Except Place Python.Module → Bool
  | .ok [.function false _ [] body] =>
    decide ((Python.docstring? body).bind RuleDoc.parse? = some ⟨"a", ""⟩)
  | _ => false

theorem exists_parse_sampleSource (o : RuleFile.Origin) :
    ∃ r, RuleFile.parse o sampleSource = .ok [r] := by
  have read : isSampleModule (Python.Module.read sampleSource.toList) = true := by decide +kernel
  rw [RuleFile.parse_eq]
  rw [isSampleModule.eq_def] at read
  split at read
  · rename_i name body parsed
    rw [parsed]
    simp only [RuleFile.rules, RuleFile.functions, List.filterMap_cons, List.filterMap_nil,
      List.mapM_cons, List.mapM_nil, RuleFile.rule, of_decide_eq_true read]
    exact ⟨_, rfl⟩
  · cases read

/-- The only entry of a directory is its only name. -/
theorem names_of_leads {t : FileTree} {dir n : String} {l : Location} {e : Entry}
    (wf : t.WellFormed) (leads : t.Leads dir l)
    (h : ∀ other, t.get? (l ++ [other]) = if other = n then some e else none) :
    names t dir = [n] := by
  rw [names, listing?_of_directory leads.1 leads.2, wf.listing_eq_singleton h]
  rfl

/-- A cache that holds one ruleset with a file, of a source that has a digest. The file has one
rule. -/
def cacheOf (digest file : String) : FileTree :=
  (((FileTree.empty.set ["rules"] .directory).set ["rules", digest] .directory).set
    ["rules", digest, "a-ruleset"] .directory).set ["rules", digest, "a-ruleset", file]
    (.file sampleContent false)

section

-- for any name in the place of a digest, so that no digest is computed
variable {digest file : String} (hname : IsName digest) (hfile : IsName file)

theorem get?_cacheOf (l : Location) : (cacheOf digest file).get? l =
    if l = ["rules", digest, "a-ruleset", file] then some (.file sampleContent false)
    else if l = ["rules", digest, "a-ruleset"] ∨ l = ["rules", digest] ∨ l = ["rules"] ∨ l = [] then
      some .directory
    else none := by
  by_cases hl : l = []
  · simp [hl]
  · simp only [cacheOf, FileTree.get?_set, FileTree.get?_empty hl, ne_eq, reduceCtorEq,
      not_false_eq_true]
    split_ifs <;> simp_all

include hname

theorem leads_cacheOf :
    (cacheOf digest file).Leads (Path.join "/rules" digest) ["rules", digest] := by
  have rules : (cacheOf digest file).Leads "/rules" ["rules"] :=
    (cacheOf digest file).leads_root.join (show IsName "rules" by decide) (by decide)
      (by simp [get?_cacheOf])
  have fits := hname.utf8ByteSize_join_le "/rules"
  have short := hname.size_le
  refine rules.join hname ?_ (by simp [get?_cacheOf])
  simp only [FileTree.nameLimit, FileTree.pathLimit,
    show ("/rules" : String).utf8ByteSize = 6 by decide] at *
  omega

theorem size_ruleset : (Path.join (Path.join "/rules" digest) "a-ruleset").utf8ByteSize ≤ 272 := by
  have storage := hname.utf8ByteSize_join_le "/rules"
  have ruleset := IsName.utf8ByteSize_join_le (show IsName "a-ruleset" by decide)
    (Path.join "/rules" digest)
  have short := hname.size_le
  simp only [FileTree.nameLimit, show ("/rules" : String).utf8ByteSize = 6 by decide,
    show ("a-ruleset" : String).utf8ByteSize = 9 by decide] at *
  omega

theorem leads_ruleset :
    (cacheOf digest file).Leads (Path.join (Path.join "/rules" digest) "a-ruleset")
      ["rules", digest, "a-ruleset"] :=
  (leads_cacheOf hname).join (by decide) ((size_ruleset hname).trans_lt (by decide))
    (by simp [get?_cacheOf])

include hfile

theorem wellFormed_cacheOf : (cacheOf digest file).WellFormed := by
  have one := FileTree.wellFormed_empty.set (l := []) (e := .directory)
    (show IsName "rules" by decide) rfl (by decide)
  have two := one.set (l := ["rules"]) (e := .directory) hname (by decide)
    (by simp [FileTree.get?_set, FileTree.get?_empty])
  have three := two.set (l := ["rules", digest]) (e := .directory)
    (show IsName "a-ruleset" by decide)
    (by simp [FileTree.get?_set]) (by simp [FileTree.get?_set, FileTree.get?_empty])
  exact three.set (l := ["rules", digest, "a-ruleset"]) (e := .file sampleContent false) hfile
    (by simp [FileTree.get?_set]) (by simp [FileTree.get?_set, FileTree.get?_empty])

theorem find?_cacheOf :
    (cacheOf digest file).find? (Visit.path (Path.join "/rules" digest) ⟨"a-ruleset", file⟩) =
      some (.file sampleContent false) := by
  have fits := hfile.utf8ByteSize_join_le (Path.join (Path.join "/rules" digest) "a-ruleset")
  have short := hfile.size_le
  have ruleset := size_ruleset hname
  rw [Visit.path, (leads_ruleset hname).find?_join hfile (by simp [get?_cacheOf]), if_pos]
  · simp [get?_cacheOf]
  · simp only [FileTree.nameLimit, FileTree.pathLimit] at *
    omega

theorem visits_cacheOf (extension : ∃ stem, stem ≠ "" ∧ file = stem ++ ".py") :
    visits (cacheOf digest file) (Path.join "/rules" digest) = [⟨"a-ruleset", file⟩] := by
  have wf := wellFormed_cacheOf hname hfile
  have rulesets := names_of_leads (n := "a-ruleset") (e := .directory) wf
    (leads_cacheOf hname) (by simp [get?_cacheOf])
  have files := names_of_leads (n := file) (e := .file sampleContent false) wf
    (leads_ruleset hname) (by simp [get?_cacheOf])
  have ruleset : (cacheOf digest file).Leads _ _ := leads_ruleset hname
  have directory := FileTree.isDirectory_iff_leads.2 ⟨_, ruleset⟩
  have found := find?_cacheOf hname hfile
  rw [Visit.path] at found
  have isRule : isRuleFile (cacheOf digest file)
      (Path.join (Path.join (Path.join "/rules" digest) "a-ruleset") file) = true :=
    (isRuleFile_join hfile).2 ⟨by rw [FileTree.isFile, found], extension⟩
  simp [visits, rulesets, files, directory, isRule]

/-- The cache has one rule. -/
theorem exists_rules_cacheOf (f : Filter) :
    ∃ r, Visit.rules (cacheOf digest file) f (Path.join "/rules" digest) ⟨"a-ruleset", file⟩ =
      .ok [r] := by
  have decoded : Text.decode? sampleContent = some sampleSource := by decide +kernel
  rw [Visit.rules, rulesInFile, FileTree.read?, find?_cacheOf hname hfile]
  simp only [Option.bind_some, decoded]
  exact exists_parse_sampleSource _

end

/-- A cache that holds one ruleset with a rule, of a source that has a digest. -/
def ruleCache (digest : String) : FileTree :=
  (((FileTree.empty.set ["rules"] .directory).set ["rules", digest] .directory).set
    ["rules", digest, "a-ruleset"] .directory).set ["rules", digest, "a-ruleset", "checks.py"]
    (.file sampleContent false)

def ruleVisit : Visit := ⟨"a-ruleset", "checks.py"⟩

section

variable {digest : String} (hname : IsName digest)
include hname

theorem wellFormed_ruleCache : (ruleCache digest).WellFormed :=
  wellFormed_cacheOf hname (show IsName "checks.py" by decide)

theorem visits_ruleCache : visits (ruleCache digest) (Path.join "/rules" digest) = [ruleVisit] :=
  visits_cacheOf hname (by decide) ⟨"checks", by decide, by decide⟩

theorem exists_rules_ruleVisit (f : Filter) :
    ∃ r, ruleVisit.rules (ruleCache digest) f (Path.join "/rules" digest) = .ok [r] :=
  exists_rules_cacheOf hname (show IsName "checks.py" by decide) f

end

theorem listRules_calls_ruleCache :
    let t := ruleCache (Source.hash "./a")
    let s : RuleSettings := ⟨["./a"], [], []⟩
    ∃ rule, t.WellFormed ∧ listRules t s "/rules" = .ok [rule] ∧
    (∀ r ∈ [rule], Path.isAbsolute r.location = true ∧
      (∃ storage v, FoundIn t s "/rules" storage v r ∧
        r.location = Path.absolute (FileTree.textOf t.cwd) (v.path storage)) ∧
      ∀ arguments, ∃ i, Invocation.ofRule r arguments = .ok i ∧ IsCallOf r arguments i) ∧
    ∀ r ∈ [rule], ∀ r' ∈ [rule], ∀ storage v storage' v', FoundIn t s "/rules" storage v r →
      FoundIn t s "/rules" storage' v' r' → storage ≠ storage' ∨ v ≠ v' →
      ∀ arguments arguments' i i', Invocation.ofRule r arguments = .ok i →
        Invocation.ofRule r' arguments' = .ok i' →
        ¬(i.moduleDir = i'.moduleDir ∧ i.moduleName = i'.moduleName) := by
  intro t s
  have wf : t.WellFormed := wellFormed_ruleCache (Source.isName_hash "./a")
  obtain ⟨rule, found⟩ := exists_rules_ruleVisit (Source.isName_hash "./a") ⟨[], []⟩
  have listed : listRules t s "/rules" = .ok [rule] := by
    rw [listRules_eq (f := ⟨[], []⟩) rfl, gather_rulesOfSource wf]
    simp only [visitsFor, s, List.flatMap_cons, List.flatMap_nil, List.append_nil, Source.storage, t,
      visits_ruleCache (Source.isName_hash "./a"), List.map_cons, List.map_nil]
    exact gather_singleton_of_ok found
  exact ⟨rule, wf, listed, listRules_calls wf listed⟩

end HouseRules.Discovery
