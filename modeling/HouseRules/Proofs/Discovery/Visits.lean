import HouseRules.Proofs.Cache.Storage
import HouseRules.Proofs.Discovery.Gathering
import HouseRules.Proofs.FileTree.WellFormed
import HouseRules.Proofs.Path.Components
import HouseRules.Proofs.Text.ByteOrder

/-! What discovery visits: in the storage of each source in turn the files with the extension `py`
that are directly in a directory that is directly in the storage, by the bytes of their names. The
rules are those of the visited files, one after another, or there is the error of the first file
that has one. -/

namespace HouseRules.Discovery

/-! ### Entries -/

/-- The names of what stands in a directory, in order. -/
def names (t : FileTree) (dir : String) : List String :=
  ((t.listing? dir).getD []).map Prod.fst

/-- A name stands in the directory that a path leads to. -/
def Holds (t : FileTree) (dir name : String) : Prop :=
  ∃ l e, t.locate true dir = some l ∧ t.get? (l ++ [name]) = some e

section

variable {t : FileTree} {dir storage : String}

theorem listing?_of_directory {l : Location} (hl : t.locate true dir = some l)
    (h : t.get? l = some .directory) : t.listing? dir = some (t.listing l) := by
  rw [FileTree.listing?, hl]
  simp [h]

theorem mem_names (wf : t.WellFormed) {name : String} :
    name ∈ names t dir ↔ Holds t dir name := by
  rw [names, List.mem_map]
  constructor
  · rintro ⟨⟨name', e⟩, hmem, rfl⟩
    rw [FileTree.listing?] at hmem
    split at hmem
    · exact absurd hmem List.not_mem_nil
    · rename_i l hl
      split at hmem
      · exact absurd hmem List.not_mem_nil
      · exact ⟨l, e, hl, wf.mem_listing.1 hmem⟩
      · exact absurd hmem List.not_mem_nil
  · rintro ⟨l, e, hl, he⟩
    refine ⟨(name, e), ?_, rfl⟩
    rw [listing?_of_directory hl (wf.get?_of_concat he)]
    exact wf.mem_listing.2 he

theorem isName_of_holds (wf : t.WellFormed) {name : String} (h : Holds t dir name) :
    IsName name := by
  obtain ⟨l, e, -, he⟩ := h
  exact wf.isName_of_get? he (by simp)

theorem pairwise_names (wf : t.WellFormed) (dir : String) :
    (names t dir).Pairwise fun a b => Text.bytesOf a < Text.bytesOf b := by
  rw [names, List.pairwise_map, FileTree.listing?]
  split
  · exact .nil
  · split
    · exact .nil
    · exact (wf.pairwise_listing _).imp Text.bytesOf_lt_of_lt
    · exact .nil

theorem entriesIn_eq (h : t.isDirectory dir = true) :
    entriesIn t dir = .ok ((names t dir).map (Path.join dir)) := by
  obtain ⟨l, hl, hdir⟩ := FileTree.isDirectory_iff.1 h
  rw [entriesIn, names, listing?_of_directory hl hdir]
  simp

end

/-! ### Visits -/

/-- A file that is visited, by the names of its directory in the storage and of itself. -/
structure Visit where
  directory : String
  file : String
  deriving DecidableEq

namespace Visit

def path (storage : String) (v : Visit) : String :=
  Path.join (Path.join storage v.directory) v.file

/-- The rules of the file. -/
def rules (t : FileTree) (f : Filter) (storage : String) (v : Visit) :
    Except DiscoveryError (List Rule) :=
  rulesInFile t f (rulesetName v.directory) (v.path storage)

/-- Visits are made in the order of the bytes of the names. -/
def Before (v w : Visit) : Prop :=
  Text.bytesOf v.directory < Text.bytesOf w.directory ∨
    v.directory = w.directory ∧ Text.bytesOf v.file < Text.bytesOf w.file

theorem Before.asymm {v w : Visit} (h : v.Before w) : ¬w.Before v := by
  rintro (h' | ⟨hdir, h'⟩) <;> obtain h | ⟨hdir', h⟩ := h
  · exact List.lt_asymm h h'
  · exact absurd (hdir' ▸ h') (List.lt_irrefl _)
  · exact absurd (hdir ▸ h) (List.lt_irrefl _)
  · exact List.lt_asymm h h'

theorem Before.ne {v w : Visit} (h : v.Before w) : v ≠ w := by
  rintro rfl
  exact h.asymm h

end Visit

/-- What is visited in a storage that is a directory: in a directory there, links followed, a
file, links followed, whose name goes on before the ending `.py`. -/
structure IsVisited (t : FileTree) (storage : String) (v : Visit) : Prop where
  storage_isDirectory : t.isDirectory storage = true
  holds_directory : Holds t storage v.directory
  isDirectory : t.isDirectory (Path.join storage v.directory) = true
  holds_file : Holds t (Path.join storage v.directory) v.file
  isFile : t.isFile (v.path storage) = true
  extension : ∃ stem, stem ≠ "" ∧ v.file = stem ++ ".py"

/-- All that is visited in a storage, in order. -/
structure AreVisits (t : FileTree) (storage : String) (vs : List Visit) : Prop where
  pairwise : vs.Pairwise Visit.Before
  mem_iff : ∀ v, v ∈ vs ↔ IsVisited t storage v

/-- Visits are settled by what is visited, since their order is. -/
theorem Visit.eq_of_pairwise {vs ws : List Visit} (hv : vs.Pairwise Visit.Before)
    (hw : ws.Pairwise Visit.Before) (same : ∀ v, v ∈ vs ↔ v ∈ ws) : vs = ws := by
  have perm : vs.Perm ws :=
    (List.perm_ext_iff_of_nodup (hv.imp Visit.Before.ne) (hw.imp Visit.Before.ne)).2 same
  refine perm.eq_of_pairwise ?_ hv hw
  intro v w _ _ hvw hwv
  exact absurd hwv hvw.asymm

theorem AreVisits.unique {t u : FileTree} {storage storage' : String} {vs ws : List Visit}
    (h : AreVisits t storage vs) (h' : AreVisits u storage' ws)
    (same : ∀ v, IsVisited t storage v ↔ IsVisited u storage' v) : vs = ws :=
  Visit.eq_of_pairwise h.pairwise h'.pairwise fun v => by rw [h.mem_iff, h'.mem_iff, same]

/-- What is visited in a storage. -/
def visits (t : FileTree) (storage : String) : List Visit :=
  ((names t storage).filter fun d => t.isDirectory (Path.join storage d)).flatMap fun d =>
    ((names t (Path.join storage d)).filter fun f =>
      isRuleFile t (Path.join (Path.join storage d) f)).map (Visit.mk d)

section

variable {t : FileTree} {storage : String}

theorem isRuleFile_join {dir name : String} (h : IsName name) :
    isRuleFile t (Path.join dir name) = true ↔
      t.isFile (Path.join dir name) = true ∧ ∃ stem, stem ≠ "" ∧ name = stem ++ ".py" := by
  rw [isRuleFile, Bool.and_eq_true, decide_eq_true_iff, Path.extension?_join h dir (by decide)]
  simp only [String.append_assoc]
  rfl

theorem isDirectory_of_holds (wf : t.WellFormed) {name : String} (h : Holds t storage name) :
    t.isDirectory storage = true := by
  obtain ⟨l, e, hl, he⟩ := h
  exact FileTree.isDirectory_iff.2 ⟨l, hl, wf.get?_of_concat he⟩

theorem mem_visits (wf : t.WellFormed) (v : Visit) :
    v ∈ visits t storage ↔ IsVisited t storage v := by
  simp only [visits, List.mem_flatMap, List.mem_filter, List.mem_map, mem_names wf]
  constructor
  · rintro ⟨d, ⟨hd, hdir⟩, f, ⟨hf, hrule⟩, rfl⟩
    obtain ⟨hfile, hext⟩ := (isRuleFile_join (isName_of_holds wf hf)).1 hrule
    exact ⟨isDirectory_of_holds wf hd, hd, hdir, hf, hfile, hext⟩
  · intro h
    refine ⟨v.directory, ⟨h.holds_directory, h.isDirectory⟩, v.file, ⟨h.holds_file, ?_⟩, rfl⟩
    exact (isRuleFile_join (isName_of_holds wf h.holds_file)).2 ⟨h.isFile, h.extension⟩

theorem areVisits_visits (wf : t.WellFormed) (storage : String) :
    AreVisits t storage (visits t storage) := by
  refine ⟨?_, mem_visits wf⟩
  rw [visits, List.pairwise_flatMap]
  constructor
  · intro d _
    rw [List.pairwise_map]
    exact ((pairwise_names wf _).filter _).imp fun h => .inr ⟨rfl, h⟩
  · refine ((pairwise_names wf storage).filter _).imp fun {d d'} h v hv w hw => ?_
    obtain ⟨f, -, rfl⟩ := List.mem_map.1 hv
    obtain ⟨f', -, rfl⟩ := List.mem_map.1 hw
    exact .inl h

/-! ### Rules of visits -/

theorem rulesInRuleset_of_holds (wf : t.WellFormed) (f : Filter) {d : String}
    (hd : Holds t storage d) (h : t.isDirectory (Path.join storage d) = true) :
    rulesInRuleset t f (Path.join storage d) =
      gather (Visit.rules t f storage) (((names t (Path.join storage d)).filter fun file =>
        isRuleFile t (Path.join (Path.join storage d) file)).map (Visit.mk d)) := by
  rw [rulesInRuleset_eq, entriesIn_eq h, Path.fileName?_join (isName_of_holds wf hd), gather_map]
  simp only [Except.bind, List.filter_map, Function.comp_def]
  exact gather_map _ (Path.join (Path.join storage d)) _

theorem rulesInStorage_of_directory (wf : t.WellFormed) (f : Filter)
    (h : t.isDirectory storage = true) :
    rulesInStorage t f storage = gather (Visit.rules t f storage) (visits t storage) := by
  rw [rulesInStorage_eq, entriesIn_eq h, visits, gather_flatMap]
  simp only [Except.bind, List.filter_map, Function.comp_def]
  rw [gather_map]
  refine gather_congr_of_eq fun d hd => ?_
  obtain ⟨hd, hdir⟩ := List.mem_filter.1 hd
  exact rulesInRuleset_of_holds wf f ((mem_names wf).1 hd) hdir

/-- A source of which nothing is stored has no visits. -/
theorem rulesOfSource_eq (wf : t.WellFormed) (f : Filter) (rulesDir source : String) :
    rulesOfSource t f rulesDir source =
      gather (Visit.rules t f (Source.storage rulesDir source))
        (visits t (Source.storage rulesDir source)) := by
  rw [rulesOfSource]
  split
  · rename_i h
    exact rulesInStorage_of_directory wf f h
  · rename_i h
    have none : visits t (Source.storage rulesDir source) = [] :=
      List.eq_nil_iff_forall_not_mem.2 fun v hv => h ((mem_visits wf v).1 hv).storage_isDirectory
    rw [none]
    rfl

/-- The files that are visited for a list of sources, in order, each with its storage. -/
def visitsFor (visited : String → List Visit) (rulesDir : String) (sources : List String) :
    List (String × Visit) :=
  sources.flatMap fun source =>
    (visited source).map (Source.storage rulesDir source, ·)

theorem gather_rulesOfSource (wf : t.WellFormed) (f : Filter) (rulesDir : String)
    (sources : List String) :
    gather (rulesOfSource t f rulesDir) sources =
      gather (fun x => x.2.rules t f x.1)
        (visitsFor (fun source => visits t (Source.storage rulesDir source)) rulesDir sources) := by
  rw [visitsFor, gather_flatMap]
  refine gather_congr_of_eq fun source _ => ?_
  rw [rulesOfSource_eq wf, gather_map]

end

/-! ### Rulesets -/

/-- A ruleset has the name of its directory, less the ending `-ruleset` if it has that. -/
def IsRulesetOf (directory ruleset : String) : Prop :=
  directory = ruleset ++ "-ruleset" ∨
    directory = ruleset ∧ ∀ stem : String, directory ≠ stem ++ "-ruleset"

theorem isRulesetOf_rulesetName (directory : String) :
    IsRulesetOf directory (rulesetName directory) := by
  rw [rulesetName]
  rcases h : Text.dropEnd? "-ruleset" directory with _ | stem
  · refine .inr ⟨rfl, ?_⟩
    rintro stem rfl
    rw [Text.dropEnd?, String.toList_append, Text.beforeEnd?_append] at h
    cases h
  · exact .inl (Text.eq_append_of_dropEnd? h)

theorem ruleset_of_rule {o : RuleFile.Origin} {fn : RuleFile.Function} {r : Rule}
    (h : RuleFile.rule o fn = .ok r) : r.ruleset = o.ruleset := by
  rw [RuleFile.rule] at h
  split at h
  · cases h
  · split at h <;> cases h
    rfl

theorem exists_rule_of_rulesInFile {t : FileTree} {f : Filter} {ruleset path : String}
    {rules : List Rule} {r : Rule} (h : rulesInFile t f ruleset path = .ok rules) (hr : r ∈ rules) :
    ∃ fn, RuleFile.rule ⟨Path.absolute (FileTree.textOf t.cwd) path, ruleset, f.isEnabled⟩ fn =
      .ok r := by
  rw [rulesInFile] at h
  split at h
  · cases h
  rw [RuleFile.parse_eq] at h
  split at h
  · cases h
  obtain ⟨fn, -, hfn⟩ := exists_of_mem_of_mapM_eq_ok h hr
  exact ⟨fn, hfn⟩

theorem ruleset_of_rulesInFile {t : FileTree} {f : Filter} {ruleset path : String}
    {rules : List Rule} (h : rulesInFile t f ruleset path = .ok rules) :
    ∀ r ∈ rules, r.ruleset = ruleset := by
  intro r hr
  obtain ⟨fn, hfn⟩ := exists_rule_of_rulesInFile h hr
  exact ruleset_of_rule hfn

/-! ### Rules -/

/-- The rules are those of the visited files in order, or there is the error of the first that has
one; what is visited is settled by the tree. -/
theorem listRules_visits {t : FileTree} {s : RuleSettings} {f : Filter} (wf : t.WellFormed)
    (compiled : Filter.ofLists s.exclude s.reinstate = .ok f) (rulesDir : String) :
    ∃ visited : String → List Visit,
      (∀ source, AreVisits t (Source.storage rulesDir source) (visited source) ∧
        ∀ vs, AreVisits t (Source.storage rulesDir source) vs → vs = visited source) ∧
      ((∃ lists, List.Forall₂
          (fun x rules => x.2.rules t f x.1 = .ok rules ∧
            ∀ r ∈ rules, IsRulesetOf x.2.directory r.ruleset)
          (visitsFor visited rulesDir s.sources) lists ∧
        listRules t s rulesDir = .ok lists.flatten) ∨
      ∃ before x after e, visitsFor visited rulesDir s.sources = before ++ x :: after ∧
        (∀ y ∈ before, ∃ rules, y.2.rules t f y.1 = .ok rules) ∧
        x.2.rules t f x.1 = .error e ∧ listRules t s rulesDir = .error e) := by
  refine ⟨fun source => visits t (Source.storage rulesDir source), fun source =>
    ⟨areVisits_visits wf _, fun vs h => h.unique (areVisits_visits wf _) fun _ => Iff.rfl⟩, ?_⟩
  rw [listRules_eq compiled, gather_rulesOfSource wf]
  obtain ⟨lists, each, all⟩ | first := gather_cases (fun x => Visit.rules t f x.1 x.2)
    (visitsFor (fun source => visits t (Source.storage rulesDir source)) rulesDir s.sources)
  · refine .inl ⟨lists, each.imp fun x rules h => ⟨h, fun r hr => ?_⟩, all⟩
    rw [ruleset_of_rulesInFile h r hr]
    exact isRulesetOf_rulesetName _
  · exact .inr first

/-- A cache that holds one ruleset of a source. -/
def sampleCache : FileTree :=
  let storage := ["rules", Source.hash "./a"]
  (((FileTree.empty.set ["rules"] .directory).set storage .directory).set
    (storage ++ ["a-ruleset"]) .directory).set (storage ++ ["a-ruleset", "checks.py"])
    (.file [] false)

theorem wellFormed_sampleCache : sampleCache.WellFormed := by
  have one := FileTree.wellFormed_empty.set (l := []) (e := .directory)
    (show IsName "rules" by decide) rfl (by decide)
  have two := one.set (l := ["rules"]) (e := .directory) (Source.isName_hash "./a") (by decide)
    (by simp [FileTree.get?, FileTree.set, FileTree.empty])
  have three := two.set (l := ["rules", Source.hash "./a"]) (e := .directory)
    (show IsName "a-ruleset" by decide)
    (by simp [FileTree.get?, FileTree.set, FileTree.empty])
    (by simp [FileTree.get?, FileTree.set, FileTree.empty])
  exact three.set (l := ["rules", Source.hash "./a", "a-ruleset"]) (e := .file [] false)
    (show IsName "checks.py" by decide)
    (by simp [FileTree.get?, FileTree.set, FileTree.empty])
    (by simp [FileTree.get?, FileTree.set, FileTree.empty])

theorem listRules_visits_sampleCache :
    let s : RuleSettings := ⟨["./a", "./b", "./a"], ["a.*"], []⟩
    let f : Filter := ⟨["a.*"].map Pattern.ofString, []⟩
    sampleCache.WellFormed ∧ Filter.ofLists s.exclude s.reinstate = .ok f ∧
    ∃ visited : String → List Visit,
      (∀ source, AreVisits sampleCache (Source.storage "/rules" source) (visited source) ∧
        ∀ vs, AreVisits sampleCache (Source.storage "/rules" source) vs → vs = visited source) ∧
      ((∃ lists, List.Forall₂
          (fun x rules => x.2.rules sampleCache f x.1 = .ok rules ∧
            ∀ r ∈ rules, IsRulesetOf x.2.directory r.ruleset)
          (visitsFor visited "/rules" s.sources) lists ∧
        listRules sampleCache s "/rules" = .ok lists.flatten) ∨
      ∃ before x after e, visitsFor visited "/rules" s.sources = before ++ x :: after ∧
        (∀ y ∈ before, ∃ rules, y.2.rules sampleCache f y.1 = .ok rules) ∧
        x.2.rules sampleCache f x.1 = .error e ∧ listRules sampleCache s "/rules" = .error e) :=
  ⟨wellFormed_sampleCache, rfl, listRules_visits wellFormed_sampleCache rfl "/rules"⟩

end HouseRules.Discovery
