import HouseRules.Proofs.Discovery.Relocation
import HouseRules.Proofs.Discovery.Visits
import HouseRules.Proofs.Fetch.Replacement
import HouseRules.Proofs.Fetch.Sources

/-! Discovery in the cache after sources were fetched. It finds what it finds in the sources
themselves, without the rulesets that are not fetched, with the paths of the copies. -/

namespace HouseRules.Discovery

open FileTree Fetch Layout

-- only that digests are names matters, never what they are
attribute [local irreducible] Source.hash

/-- The rules in a directory without the rulesets in directories of some names. -/
def rulesBesides (left : List String) (t : FileTree) (f : Filter) (dir : String) :
    Except DiscoveryError (List Rule) := do
  let dirs ← entriesIn t dir
  let kept := (dirs.filter t.isDirectory).filter (· ∉ left.map (Path.join dir))
  return (← kept.mapM (rulesInRuleset t f)).flatten

theorem rulesBesides_nil (t : FileTree) (f : Filter) (dir : String) :
    rulesBesides [] t f dir = rulesInStorage t f dir := by
  simp [rulesBesides, rulesInStorage]

variable {t : FileTree} {f : Filter} {dir p origin storage : String} {l d s : Location}
  {v : Visit} {left : List String}

/-! ### Visits without some rulesets -/

theorem join_mem_map {name : String} (hname : IsName name) (hleft : ∀ name ∈ left, IsName name) :
    Path.join dir name ∈ left.map (Path.join dir) ↔ name ∈ left := by
  rw [List.mem_map]
  constructor
  · rintro ⟨other, mem, same⟩
    have names := Path.fileName?_join (hleft other mem) dir
    rw [same, Path.fileName?_join hname] at names
    cases names
    exact mem
  · exact fun mem => ⟨name, mem, rfl⟩

/-- They are the rules of the visits in the other rulesets. -/
theorem rulesBesides_eq (wf : t.WellFormed) (f : Filter) (hleft : ∀ name ∈ left, IsName name)
    (h : t.isDirectory dir = true) :
    rulesBesides left t f dir =
      gather (Visit.rules t f dir) ((visits t dir).filter (·.directory ∉ left)) := by
  have whole : rulesBesides left t f dir = (entriesIn t dir).bind fun dirs =>
      gather (rulesInRuleset t f)
        ((dirs.filter t.isDirectory).filter (· ∉ left.map (Path.join dir))) := by
    rw [rulesBesides]
    rcases entriesIn t dir with e | dirs <;> rfl
  rw [whole, entriesIn_eq h, visits, List.filter_flatMap, gather_flatMap]
  simp only [Except.bind, List.filter_map, Function.comp_def]
  rw [gather_map, gather_filter]
  refine gather_congr_of_eq fun name mem => ?_
  obtain ⟨holds, isDir⟩ := List.mem_filter.1 mem
  have holds := (mem_names wf).1 holds
  rw [rulesInRuleset_of_holds wf f holds isDir]
  simp only [join_mem_map (isName_of_holds wf holds) hleft]
  by_cases hkeep : name ∈ left <;> simp [hkeep]

/-! ### Visits in a storage and in its source -/

theorem holds_iff (leads : t.Leads p l) {name : String} :
    Holds t p name ↔ ∃ e, t.get? (l ++ [name]) = some e := by
  constructor
  · rintro ⟨m, e, hm, he⟩
    cases leads.1.symm.trans hm
    exact ⟨e, he⟩
  · rintro ⟨e, he⟩
    exact ⟨l, e, leads.1, he⟩

theorem isFile_iff : t.isFile p = true ↔
    ∃ content executable, t.find? p = some (.file content executable) := by
  rw [isFile]
  split <;> simp_all

theorem exists_get?_of_find?_join {name : String} (leads : t.Leads p l) (hname : IsName name)
    {e : Entry} (h : t.find? (Path.join p name) = some e) :
    ∃ e, t.get? (l ++ [name]) = some e := by
  by_cases hlink : ∃ target, t.get? (l ++ [name]) = some (.link target)
  · exact hlink.imp' _ fun _ => id
  · rw [leads.find?_join hname fun target h => hlink ⟨target, h⟩] at h
    split at h
    · exact ⟨e, h⟩
    · cases h

/-- What is visited where no links lead to rulesets. -/
theorem isVisited_iff_of_leads (wf : t.WellFormed) (leads : t.Leads p l)
    (plain : ∀ name target, t.get? (l ++ [name]) = some (.link target) →
      t.isDirectory (Path.join p name) = false) :
    IsVisited t p v ↔ IsName v.file ∧ t.Leads (Path.join p v.directory) (l ++ [v.directory]) ∧
      t.isFile (v.path p) = true ∧ ∃ stem, stem ≠ "" ∧ v.file = stem ++ ".py" := by
  constructor
  · intro h
    obtain ⟨e, he⟩ := (holds_iff leads).1 h.holds_directory
    have hname := wf.isName_of_get? he (List.mem_append_right l List.mem_cons_self)
    have noLink (target : String) : t.get? (l ++ [v.directory]) ≠ some (.link target) := fun link => by
      cases (plain _ _ link).symm.trans h.isDirectory
    obtain ⟨m, hm⟩ := isDirectory_iff_leads.1 h.isDirectory
    have same : t.locate true (Path.join p v.directory) = some (l ++ [v.directory]) :=
      leads.locate_join hname (of_locate hm.1).2 fun _ => noLink
    cases same.symm.trans hm.1
    exact ⟨isName_of_holds wf h.holds_file, hm, h.isFile, h.extension⟩
  · rintro ⟨hname, inner, file, ext⟩
    obtain ⟨content, executable, found⟩ := isFile_iff.1 file
    exact ⟨isDirectory_iff_leads.2 ⟨l, leads⟩, (holds_iff leads).2 ⟨_, inner.2⟩,
      isDirectory_iff_leads.2 ⟨_, inner⟩,
      (holds_iff inner).2 (exists_get?_of_find?_join inner hname found), file, ext⟩

/-- The source that a storage mirrors is visited alike, but for the rulesets that are left out. -/
theorem isVisited_mirror_iff (wf : t.WellFormed) (h : Mirrors t origin d storage s)
    (leads : t.Leads origin d)
    (plain : ∀ name target, t.get? (d ++ [name]) = some (.link target) →
      t.isDirectory (Path.join origin name) = false) :
    IsVisited t storage v ↔ IsVisited t origin v ∧ v.directory ∉ skippedNames := by
  rw [isVisited_iff_of_leads wf leads plain, isVisited_iff_of_leads wf h.leads
    fun name target link => absurd link (h.get?_ne_link [name] target)]
  constructor
  · rintro ⟨hname, inner, file, ext⟩
    obtain ⟨hdir, hkeep⟩ := Keeps.directory_iff.1 ((h.get?_iff [v.directory] _).1 inner.2)
    have hdirName := wf.isName_of_get? hdir (List.mem_append_right d List.mem_cons_self)
    have h' := h.inside hdirName hdir hkeep
    obtain ⟨content, executable, found⟩ := isFile_iff.1 file
    have kept := (h'.get?_iff [v.file] _).1 ((h'.find?_join hname).symm.trans found)
    have inner' := leads.join hdirName ((utf8ByteSize_le_join hname _).trans_lt kept.size_lt) hdir
    exact ⟨⟨hname, inner', isFile_iff.2 ⟨_, _, (Keeps.file_iff inner' hname).1 kept⟩, ext⟩, hkeep⟩
  · rintro ⟨⟨hname, inner, file, ext⟩, hkeep⟩
    have hdirName := wf.isName_of_get? inner.2 (List.mem_append_right d List.mem_cons_self)
    have h' := h.inside hdirName inner.2 hkeep
    obtain ⟨content, executable, found⟩ := isFile_iff.1 file
    exact ⟨hname, h'.leads, isFile_iff.2 ⟨_, _, (h'.find?_eq_file_iff inner hname).2 found⟩, ext⟩

theorem read?_mirror_eq (wf : t.WellFormed) (h : Mirrors t origin d storage s)
    (leads : t.Leads origin d)
    (plain : ∀ name target, t.get? (d ++ [name]) = some (.link target) →
      t.isDirectory (Path.join origin name) = false)
    (visited : IsVisited t origin v) (hkeep : v.directory ∉ skippedNames) :
    t.read? (v.path storage) = t.read? (v.path origin) := by
  obtain ⟨hname, inner, file, -⟩ := (isVisited_iff_of_leads wf leads plain).1 visited
  have hdirName := wf.isName_of_get? inner.2 (List.mem_append_right d List.mem_cons_self)
  obtain ⟨content, executable, found⟩ := isFile_iff.1 file
  have h' := h.inside hdirName inner.2 hkeep
  have copy : t.find? (v.path storage) = some (.file content executable) :=
    (h'.find?_eq_file_iff inner hname).2 found
  rw [read?, read?, copy, found]

theorem isName_skippedNames : ∀ name ∈ skippedNames, IsName name := by
  decide

/-- Discovery in a storage is discovery in the source that it mirrors. -/
theorem rulesInStorage_mirror (wf : t.WellFormed) (f : Filter) (h : Mirrors t origin d storage s)
    (leads : t.Leads origin d)
    (plain : ∀ name target, t.get? (d ++ [name]) = some (.link target) →
      t.isDirectory (Path.join origin name) = false) :
    rulesInStorage t f storage =
      moved (textOf t.cwd) origin storage (rulesBesides skippedNames t f origin) := by
  have same : visits t storage = (visits t origin).filter (·.directory ∉ skippedNames) := by
    refine Visit.eq_of_pairwise (areVisits_visits wf storage).pairwise
      ((areVisits_visits wf origin).pairwise.filter _) fun v => ?_
    rw [mem_visits wf, isVisited_mirror_iff wf h leads plain, List.mem_filter, mem_visits wf]
    simp
  rw [rulesInStorage_of_directory wf f (isDirectory_iff_leads.2 ⟨s, h.leads⟩), same,
    rulesBesides_eq wf f isName_skippedNames (isDirectory_iff_leads.2 ⟨d, leads⟩)]
  refine gather_congr fun v mem => ?_
  obtain ⟨mem, hkeep⟩ := List.mem_filter.1 mem
  have visited := (mem_visits wf v).1 mem
  have hkeep : v.directory ∉ skippedNames := by simpa using hkeep
  obtain ⟨hname, inner, -, -⟩ := (isVisited_iff_of_leads wf leads plain).1 visited
  have hdirName := wf.isName_of_get? inner.2 (List.mem_append_right d List.mem_cons_self)
  exact rulesInFile_moved hdirName hname _ (read?_mirror_eq wf h leads plain visited hkeep)

/-! ### Discovery in the cache -/

/-- A source that has nothing to do with the rules directory, and none of whose rulesets is a
link. -/
structure Plain (t : FileTree) (origin : String) (d r : Location) : Prop
    extends Clear t origin d r where
  no_linked_directory : ∀ name target, t.get? (d ++ [name]) = some (.link target) →
    t.isDirectory (Path.join origin name) = false

/-- After sources were fetched, discovery in the cache finds what it finds in the sources, in their
order, without the rulesets that are not fetched and with the paths of the copies. -/
theorem listRules_fetchAll {layout : Layout} {base : String}
    {sources storages exclude reinstate : List String} {u : FileTree} (wf : t.WellFormed)
    (hcwd : t.get? t.cwd = some .directory)
    (rooted : layout.Rooted t) (fetched : fetchAll layout base sources t = (.ok storages, u))
    (compiled : Filter.ofLists exclude reinstate = .ok f)
    (injective : ∀ a ∈ sources, ∀ b ∈ sources, Source.hash a = Source.hash b → a = b)
    (plain : ∀ r, u.Leads layout.rulesDir r → ∀ location ∈ sources,
      ∃ d, Plain u (Source.resolve base location) d r) :
    (∀ location ∈ sources, u.isDirectory (layout.storage location) = true) ∧
    listRules u ⟨sources, exclude, reinstate⟩ layout.rulesDir = gather (fun location =>
      moved (textOf u.cwd) (Source.resolve base location) (layout.storage location)
        (rulesBesides skippedNames u f (Source.resolve base location))) sources := by
  obtain ⟨r, run⟩ := exists_fetchedAll wf hcwd rooted fetched
  have wf' := run.wellFormed wf
  have mirrors : ∀ location ∈ sources, ∃ d, Plain u (Source.resolve base location) d r ∧
      Mirrors u (Source.resolve base location) d (layout.storage location)
        (storageAt r location) := by
    intro location mem
    have leads : u.Leads layout.rulesDir r := by
      cases run with
      | nil => exact absurd mem List.not_mem_nil
      | cons first rest => exact rest.leads_rulesDir first.leads_rulesDir
    obtain ⟨d, apart⟩ := plain r leads location mem
    exact ⟨d, apart, run.mirrors injective mem apart.toClear⟩
  have stored : ∀ location ∈ sources, u.isDirectory (layout.storage location) = true := by
    intro location mem
    obtain ⟨d, -, mirror⟩ := mirrors location mem
    exact isDirectory_iff_leads.2 ⟨_, mirror.leads⟩
  refine ⟨stored, ?_⟩
  rw [listRules_eq compiled]
  refine gather_congr_of_eq fun location mem => ?_
  obtain ⟨d, apart, mirror⟩ := mirrors location mem
  rw [rulesOfSource]
  exact (if_pos (stored location mem)).trans (rulesInStorage_mirror wf' f mirror
    ((emptied_within u r).leads apart.leads) apart.no_linked_directory)

/-! ### Discovery on the host -/

theorem plain_sampleCopied :
    Plain (sampleCopied []) (Source.resolve "/" "p") ["p"] ["cfg", "rules"] where
  leads := (hasSample_sampleCopied []).emptied.leads_source
  not_inside := by decide
  links _ target _ link := absurd (linksIn_sampleCopied [] _ target link) List.not_mem_nil
  no_linked_directory _ target link :=
    absurd (linksIn_sampleCopied [] _ target link) List.not_mem_nil

theorem listRules_fetchAll_sampleHost :
    let t := sampleHost (.file [] true)
    let u := sampleCopied []
    t.WellFormed ∧ t.get? t.cwd = some .directory ∧ sampleLayout.Rooted t ∧
    fetchAll sampleLayout "/" ["p"] t = (.ok [sampleLayout.storage "p"], u) ∧
    Filter.ofLists [] [] = .ok .allowAll ∧
    Plain u (Source.resolve "/" "p") ["p"] ["cfg", "rules"] ∧
    (∀ location ∈ ["p"], u.isDirectory (sampleLayout.storage location) = true) ∧
    listRules u ⟨["p"], [], []⟩ sampleLayout.rulesDir = gather (fun location =>
      moved (textOf u.cwd) (Source.resolve "/" location) (sampleLayout.storage location)
        (rulesBesides skippedNames u .allowAll (Source.resolve "/" location))) ["p"] := by
  intro t u
  have run := fetchAll_singleton (fetch_sampleCopied [])
  refine ⟨wellFormed_sampleHost _, rfl, rooted_sampleHost _, run, rfl, plain_sampleCopied,
    listRules_fetchAll (wellFormed_sampleHost _) rfl (rooted_sampleHost _) run rfl
      (by simp) fun r leads location mem => ?_⟩
  obtain rfl := (hasSample_sampleCopied []).leads_rulesDir.unique leads
  obtain rfl := List.mem_singleton.1 mem
  exact ⟨_, plain_sampleCopied⟩

/-! ### A link to what is stored -/

theorem linksIn_sampleLinked : LinksIn sampleLinked [["p", "r", "a.py"]] :=
  (LinksIn.sampleOpened (.inl (by simp))).set (.inr (by simp))

theorem wellFormed_sampleLinked : sampleLinked.WellFormed := by
  have wf := wellFormed_sampleHost sampleLink
  obtain ⟨r, run⟩ :=
    exists_fetchedAll wf rfl (rooted_sampleHost _) (fetchAll_singleton fetch_sampleLinked)
  exact run.wellFormed wf

/-- The source holds one file that is visited. -/
theorem visits_sampleLinked :
    visits sampleLinked (Source.resolve "/" "p") = [⟨"r", "a.py"⟩] := by
  have wf := wellFormed_sampleLinked
  have linked : HasSample sampleLinked sampleLink := (hasSample_sampleOpened _).set ["r", "b"] _
  have isDir := isDirectory_iff_leads.2 ⟨_, linked.leads_ruleset⟩
  have rule : isRuleFile sampleLinked
      (Path.join (Path.join (Source.resolve "/" "p") "r") "a.py") = true :=
    (isRuleFile_join (by decide)).2
      ⟨isFile_iff.2 ⟨_, _, find?_sampleLinked⟩, "a", by decide, by decide⟩
  have other : isRuleFile sampleLinked
      (Path.join (Path.join (Source.resolve "/" "p") "r") "b") = false := by
    rw [isRuleFile, show Path.extension? (Path.join (Path.join (Source.resolve "/" "p") "r") "b") =
      none by decide]
    simp
  simp [visits, names, listing?_of_leads linked.leads_source,
    listing?_of_leads linked.leads_ruleset, linked.listing_source wf, linked.listing_ruleset wf,
    isDir, rule, other]

/-- The file that the link leads to is no text. -/
theorem rulesBesides_sampleLinked :
    rulesBesides skippedNames sampleLinked .allowAll (Source.resolve "/" "p") =
      .error (.unreadable (Path.join (Path.join (Source.resolve "/" "p") "r") "a.py")) := by
  have linked : HasSample sampleLinked sampleLink := (hasSample_sampleOpened _).set ["r", "b"] _
  rw [rulesBesides_eq wellFormed_sampleLinked _ isName_skippedNames
    (isDirectory_iff_leads.2 ⟨_, linked.leads_source⟩), visits_sampleLinked]
  refine gather_cons_of_error ?_ _
  have read : sampleLinked.read? (Path.join (Path.join (Source.resolve "/" "p") "r") "a.py") =
      some [255] := by
    rw [read?, find?_sampleLinked]
  rw [Visit.rules, rulesInFile, Visit.path, read]
  rfl

/-- Nothing is discovered in the cache, where the link was left out. -/
theorem listRules_sampleLinked :
    listRules sampleLinked ⟨["p"], [], []⟩ sampleLayout.rulesDir = .ok [] := by
  have wf := wellFormed_sampleLinked
  have leads := leads_sampleLinked
  have plain (name target : String) (link : sampleLinked.get? (sampleStorage ++ [name]) =
      some (.link target)) : sampleLinked.isDirectory (Path.join (sampleLayout.storage "p") name) =
        false := by
    simpa [sampleStorage, storageAt] using linksIn_sampleLinked _ target link
  have none : visits sampleLinked (sampleLayout.storage "p") = [] := by
    refine List.eq_nil_iff_forall_not_mem.2 fun v mem => ?_
    obtain ⟨hname, inner, file, stem, hstem, ext⟩ :=
      (isVisited_iff_of_leads wf leads plain).1 ((mem_visits wf v).1 mem)
    obtain ⟨content, executable, found⟩ := isFile_iff.1 file
    obtain ⟨e, stored⟩ := exists_get?_of_find?_join inner hname found
    have other : v.file ≠ "b" := by
      rintro same
      have lengths := congrArg String.length (ext.symm.trans same)
      rw [String.length_append, show (".py" : String).length = 3 by decide,
        show ("b" : String).length = 1 by decide] at lengths
      omega
    rw [sampleLinked, get?_set_of_ne _ (by simpa using fun _ => other), List.append_assoc,
      get?_sampleOpened_storage _ (by simp) (by simp)] at stored
    cases stored
  have stored : sampleLinked.isDirectory (sampleLayout.storage "p") = true :=
    isDirectory_iff_leads.2 ⟨_, leads⟩
  have discovered : rulesOfSource sampleLinked .allowAll sampleLayout.rulesDir "p" = .ok [] := by
    rw [rulesOfSource_eq wf]
    exact congrArg (gather _) none
  rw [listRules_eq (show Filter.ofLists [] [] = .ok .allowAll from rfl)]
  exact gather_cons_of_ok discovered []

/-- A link in a source to a file that is stored for it is left out, when that was cleared before,
but leads to a file afterwards. -/
theorem listRules_ne_of_link :
    let t := sampleHost sampleLink
    let u := sampleLinked
    let origin := Source.resolve "/" "p"
    t.WellFormed ∧ fetchAll sampleLayout "/" ["p"] t = (.ok [sampleLayout.storage "p"], u) ∧
    u.Leads origin ["p"] ∧ u.Leads sampleLayout.root ["cfg"] ∧ ¬["cfg"] <+: ["p"] ∧
    (∀ rel target, u.get? (["p"] ++ rel) = some (.link target) →
      u.isDirectory (rel.foldl Path.join origin) = false) ∧
    Filter.ofLists [] [] = .ok .allowAll ∧
    listRules u ⟨["p"], [], []⟩ sampleLayout.rulesDir ≠ gather (fun location =>
      moved (textOf u.cwd) (Source.resolve "/" location) (sampleLayout.storage location)
        (rulesBesides skippedNames u .allowAll (Source.resolve "/" location))) ["p"] := by
  intro t u origin
  have linked : HasSample sampleLinked sampleLink := (hasSample_sampleOpened _).set ["r", "b"] _
  refine ⟨wellFormed_sampleHost _, fetchAll_singleton fetch_sampleLinked, linked.leads_source,
    (leads_root _).join (show IsName "cfg" by decide) (by decide) linked.cfg, by decide,
    fun rel target link => ?_, rfl, ?_⟩
  · obtain rfl : rel = ["r", "a.py"] := by
      simpa using linksIn_sampleLinked _ target link
    rw [List.foldl_cons, List.foldl_cons, List.foldl_nil, isDirectory, find?_sampleLinked]
  · rw [listRules_sampleLinked, gather_cons_of_error (by rw [rulesBesides_sampleLinked]; rfl)]
    simp

end HouseRules.Discovery
