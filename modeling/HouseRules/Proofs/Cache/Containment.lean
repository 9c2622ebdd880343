import HouseRules.Proofs.Fetch.Replacement

/-! The storage of a source stays inside the rule cache. As it is written its path is that of the
rule cache and one name of 64 hexadecimal digits after that, whatever the location is, and apart from
the path of the environment. In a file tree, removing it takes away at most what stands in the rule
cache under that name, so never the rule cache, and neither the root nor the environment unless a
link puts them there. -/

namespace HouseRules

open FileTree

-- only that digests are names matters, never what they are
attribute [local irreducible] Source.hash

/-! ### Parts of paths -/

namespace Path

/-- What a path starts with, as a part of it. -/
def Start.parts : Start → List String
  | root => ["/"]
  | current => ["."]
  | bare => []

/-- What a path starts with and its components. Paths with the same parts are the same path, and one
whose parts go on after those of another is below that. -/
def parts (p : String) : List String := (split p.toList).1.parts ++ components p

/-- Neither path is, as it is written, the other one or below it. -/
def Apart (p q : String) : Prop := ¬parts p <+: parts q ∧ ¬parts q <+: parts p

variable {name : String}

theorem split_fst_of_isName (h : IsName name) : (split name.toList).1 = .bare := by
  have hslash := h.slash_not_mem
  have hdot : name.toList ≠ ['.'] := fun same => h.ne_dot (String.toList_inj.1 same)
  generalize name.toList = cs at hslash hdot
  fun_cases split cs with
  | case1 => exact absurd List.mem_cons_self hslash
  | case2 => exact absurd rfl hdot
  | case3 => exact absurd (List.mem_cons_of_mem _ List.mem_cons_self) hslash
  | case4 => rfl

/-- A joined path starts like the one that it is joined from. -/
theorem split_fst_join (h : IsName name) (dir : String) :
    (split (join dir name).toList).1 = (split dir.toList).1 := by
  by_cases hdir : dir = ""
  · subst hdir
    rw [join, if_pos (by simp)]
    exact split_fst_of_isName h
  have hcs : dir.toList ≠ [] := mt String.toList_eq_nil_iff.1 hdir
  by_cases hend : dir.toList.getLast? = some '/'
  · obtain ⟨before, hbefore⟩ := List.getLast?_eq_some_iff.1 hend
    have whole : (join dir name).toList = before ++ '/' :: name.toList := by
      rw [join, h.isAbsolute_eq_false, Bool.false_or, if_neg (by simpa using hdir), if_pos hend,
        String.toList_append, hbefore, List.append_assoc, List.singleton_append]
    rw [whole, hbefore]
    by_cases hnil : before = []
    · subst hnil
      rfl
    · rw [split_append hnil, split_append hnil]
  · have whole : (join dir name).toList = dir.toList ++ '/' :: name.toList := by
      rw [h.join_eq hdir hend]
      simp
    rw [whole, split_append hcs]

theorem parts_join (h : IsName name) (dir : String) : parts (join dir name) = parts dir ++ [name] := by
  rw [parts, split_fst_join h, components_join h, parts, List.append_assoc]

end Path

/-! ### Paths of the cache -/

namespace Layout

variable {l : Layout} {location : String} {t u : FileTree} {c k r : Location}

theorem parts_rulesDir (l : Layout) : Path.parts l.rulesDir = Path.parts l.root ++ ["rules"] :=
  Path.parts_join (by decide) l.root

theorem parts_storage (l : Layout) (location : String) :
    Path.parts (l.storage location) = Path.parts l.root ++ ["rules", Source.hash location] := by
  rw [storage, Source.storage, Path.parts_join (Source.isName_hash location), parts_rulesDir,
    List.append_assoc, List.singleton_append]

theorem parts_requirements (l : Layout) (location : String) :
    Path.parts (l.requirements location) =
      Path.parts l.root ++ ["rules", Source.hash location, "requirements.txt"] := by
  rw [requirements, Path.parts_join (by decide), parts_storage, List.append_assoc]
  rfl

theorem parts_environmentDir (l : Layout) :
    Path.parts l.environmentDir = Path.parts l.root ++ ["rules-venv"] :=
  Path.parts_join (by decide) l.root

/-- What is in the rule cache, as it is written, is apart from the environment. -/
theorem apart_environmentDir {p : String} {below : List String}
    (h : Path.parts p = Path.parts l.root ++ "rules" :: below) : Path.Apart p l.environmentDir := by
  rw [Path.Apart, h, parts_environmentDir, List.prefix_append_right_inj,
    List.prefix_append_right_inj, List.cons_prefix_cons, List.cons_prefix_cons]
  exact ⟨fun same => absurd same.1 (by decide), fun same => absurd same.1 (by decide)⟩

theorem storage_eq (l : Layout) (location : String) :
    l.storage location = l.rulesDir ++ "/" ++ Source.hash location := by
  have rules : IsName "rules" := by decide
  exact (Source.isName_hash location).join_eq (rules.join_ne_empty l.root)
    (rules.getLast?_join l.root)

theorem parent?_storage (l : Layout) (location : String) :
    Path.parent? (l.storage location) = some l.rulesDir :=
  Path.parent?_join (by decide) (Source.isName_hash location) l.root

/-! ### Places of the cache -/

/-- The directory that the root names. No name at all stands for the working directory. -/
def HeldIn (l : Layout) (t : FileTree) (c : Location) : Prop :=
  l.root = "" ∧ c = t.cwd ∨ t.Leads l.root c

/-- What stands in the root under a name is there, unless it is a link. -/
theorem HeldIn.eq_of_leads {name : String} (held : l.HeldIn t c) (hname : IsName name)
    (noLink : ∀ target, t.get? (c ++ [name]) ≠ some (.link target))
    (leads : t.Leads (Path.join l.root name) k) : k = c ++ [name] := by
  have found : t.locate true (Path.join l.root name) = some (c ++ [name]) := by
    obtain ⟨hroot, rfl⟩ | held := held
    · have whole : Path.join l.root name = name := by rw [Path.join, hroot, if_pos (by simp)]
      have names : pathNames name = [name] := by
        have alone := pathNames_append hname (.inl (rfl : ([] : List Char) = []))
        simpa [Text.pieces] using alone
      rw [whole] at leads ⊢
      rw [locate_eq hname.ne_empty (of_locate leads.1).2, startOf, hname.isAbsolute_eq_false, names]
      exact walk_singleton_of_not_link hname noLink
    · exact held.locate_join hname (of_locate leads.1).2 fun _ => noLink
  exact Option.some.inj (leads.1.symm.trans found)

/-- What the removal of a storage spares. -/
structure Spares (l : Layout) (location : String) (t u : FileTree) : Prop where
  /-- Everything that is not in the rule cache under the name of the storage. -/
  others : ∀ m e, t.get? m = some e →
    u.get? m = some e ∨ ∃ r, t.Leads l.rulesDir r ∧ storageAt r location <+: m
  /-- The rule cache itself, wherever links lead to it. -/
  cache : ∀ r, t.Leads l.rulesDir r → u.get? r = some .directory
  /-- The root and all else in it, if the rule cache is there and not behind a link. -/
  root : ∀ c, l.HeldIn t c → (∀ target, t.get? (c ++ ["rules"]) ≠ some (.link target)) →
    ∀ rel, ¬["rules", Source.hash location] <+: rel → u.get? (c ++ rel) = t.get? (c ++ rel)
  /-- The environment and all in it, if it is not behind a link either. -/
  environment : ∀ c k, l.HeldIn t c → (∀ target, t.get? (c ++ ["rules"]) ≠ some (.link target)) →
    (∀ target, t.get? (c ++ ["rules-venv"]) ≠ some (.link target)) →
    t.Leads l.environmentDir k → ∀ rel, u.get? (k ++ rel) = t.get? (k ++ rel)

theorem spares_refl (l : Layout) (location : String) (t : FileTree) : l.Spares location t t where
  others _ _ he := .inl he
  cache _ leads := leads.2
  root _ _ _ _ _ := rfl
  environment _ _ _ _ _ _ _ := rfl

theorem spares_erase (leads : t.Leads l.rulesDir r) :
    l.Spares location t (t.erase (storageAt r location)) := by
  have kept {m : Location} (hm : ¬storageAt r location <+: m) :
      (t.erase (storageAt r location)).get? m = t.get? m := get?_erase_of_not_below hm
  have root : ∀ c, l.HeldIn t c → (∀ target, t.get? (c ++ ["rules"]) ≠ some (.link target)) →
      ∀ rel, ¬["rules", Source.hash location] <+: rel →
        (t.erase (storageAt r location)).get? (c ++ rel) = t.get? (c ++ rel) := by
    intro c held noLink rel outside
    obtain rfl := held.eq_of_leads (by decide) noLink leads
    refine kept fun below => outside ?_
    rwa [storageAt, List.append_assoc, List.prefix_append_right_inj] at below
  refine ⟨fun m e he => ?_, fun r' leads' => ?_, root, fun c k held noLink noLink' leads' rel => ?_⟩
  · by_cases hm : storageAt r location <+: m
    · exact .inr ⟨r, leads, hm⟩
    · exact .inl ((kept hm).trans he)
  · obtain rfl := leads.unique leads'
    rw [kept fun below => (below_of_storageAt below).2 rfl, leads.2]
  · obtain rfl := held.eq_of_leads (by decide) noLink' leads'
    rw [List.append_assoc]
    exact root c held noLink _ (by simp [List.cons_prefix_cons])

/-- The path of a storage is that of the rule cache and one name of 64 hexadecimal digits, and apart
from the environment. Removing it spares the rule cache, and the root and the environment unless
links lead into it. -/
theorem storage_contained (l : Layout) (location : String) :
    (l.storage location = l.rulesDir ++ "/" ++ Source.hash location ∧
      Path.parts (l.storage location) = Path.parts l.rulesDir ++ [Source.hash location] ∧
      (Source.hash location).toList.length = 64 ∧
      ∀ c ∈ (Source.hash location).toList, c ∈ "0123456789abcdef".toList) ∧
    (Path.parent? (l.storage location) = some l.rulesDir ∧
      Path.parts (l.storage location) ≠ Path.parts l.rulesDir) ∧
    (Path.Apart (l.storage location) l.environmentDir ∧
      Path.Apart (l.requirements location) l.environmentDir) ∧
    ∀ t u : FileTree, t.WellFormed → t.get? t.cwd = some .directory →
      Fetch.clear? t (l.storage location) = some u → l.Spares location t u := by
  have parts : Path.parts (l.storage location) = Path.parts l.rulesDir ++ [Source.hash location] :=
    Path.parts_join (Source.isName_hash location) l.rulesDir
  refine ⟨⟨l.storage_eq location, parts, Source.length_hash location, fun c => Source.mem_hash⟩,
    ⟨l.parent?_storage location, by simp [parts]⟩,
    ⟨apart_environmentDir (l.parts_storage location),
      apart_environmentDir (l.parts_requirements location)⟩, fun t u wf hcwd cleared => ?_⟩
  rcases hdir : t.isDirectory l.rulesDir
  · obtain rfl := Fetch.eq_of_clear? wf hcwd hdir cleared
    exact spares_refl l location u
  · obtain ⟨r, leads⟩ := isDirectory_iff_leads.1 hdir
    obtain ⟨rfl, -⟩ | ⟨rfl, -⟩ := Fetch.clear?_storage leads cleared
    · exact spares_refl l location u
    · exact spares_erase leads

open Fetch

/-- On a host without links in the root the environment keeps all that is in it. -/
theorem storage_contained_sampleHost :
    let t := sampleHost (.file [] true)
    let u := t.erase sampleStorage
    t.WellFormed ∧ t.get? t.cwd = some .directory ∧
      clear? t (sampleLayout.storage "p") = some u ∧ sampleLayout.Spares "p" t u := by
  intro t u
  obtain ⟨cleared, -, -⟩ := prepared_sampleHost (.file [] true)
  have wf := wellFormed_sampleHost (.file [] true)
  exact ⟨wf, rfl, cleared, (storage_contained sampleLayout "p").2.2.2 t u wf rfl cleared⟩

/-! ### Links into a storage -/

/-- A host on which the environment is a link to a directory in the storage of the source `p`, which
is empty. -/
def sharedHost : FileTree :=
  (((((FileTree.empty.set ["cfg"] .directory).set ["cfg", "rules"] .directory).set
    sampleStorage .directory).set (sampleStorage ++ ["env"]) .directory).set ["cfg", "rules-venv"]
    (.link (Path.join (Path.join "rules" (Source.hash "p")) "env"))).set ["p"] .directory

/-- That host after the source was fetched. -/
def sharedFetched : FileTree := (sharedHost.erase sampleStorage).set sampleStorage .directory

/-- What stands on the way to the environment. -/
structure IsShared (t : FileTree) : Prop where
  cfg : t.get? ["cfg"] = some .directory
  rules : t.get? ["cfg", "rules"] = some .directory
  storage : t.get? sampleStorage = some .directory
  link : t.get? ["cfg", "rules-venv"] =
    some (.link (Path.join (Path.join "rules" (Source.hash "p")) "env"))

theorem isShared_sharedHost : IsShared sharedHost := by
  constructor <;> simp [sharedHost, sampleStorage, storageAt, get?_set]

theorem not_below_sampleStorage {m : Location} (h : m.take 2 ≠ ["cfg", "rules"]) :
    ¬sampleStorage <+: m := by
  rintro ⟨rel, rfl⟩
  exact h rfl

theorem isShared_sharedFetched : IsShared sharedFetched := by
  have kept {m : Location} (h : ¬sampleStorage <+: m) : sharedFetched.get? m = sharedHost.get? m := by
    rw [sharedFetched, get?_set_of_ne, get?_erase_of_not_below h]
    rintro rfl
    exact h List.prefix_rfl
  obtain ⟨cfg, rules, -, link⟩ := isShared_sharedHost
  refine ⟨(kept ?_).trans cfg, (kept ?_).trans rules, get?_set_self _ (storageAt_ne_nil _ "p") _,
    (kept (not_below_sampleStorage (by decide))).trans link⟩
  · exact not_below_sampleStorage (by decide)
  · exact fun below => (below_of_storageAt below).2 rfl

theorem IsShared.leads_rulesDir (h : IsShared t) :
    t.Leads sampleLayout.rulesDir ["cfg", "rules"] :=
  ((leads_root t).join (show IsName "cfg" by decide) (by decide) h.cfg).join
    (show IsName "rules" by decide) (by decide) h.rules

theorem IsShared.find?_environmentDir (h : IsShared t)
    (noLink : ∀ target, t.get? (sampleStorage ++ ["env"]) ≠ some (.link target)) :
    t.find? sampleLayout.environmentDir = t.get? (sampleStorage ++ ["env"]) := by
  have hash := Source.isName_hash "p"
  have env : IsName "env" := by decide
  obtain ⟨target, htarget⟩ :
      ∃ target, target = Path.join (Path.join "rules" (Source.hash "p")) "env" := ⟨_, rfl⟩
  have names : pathNames target = ["rules", Source.hash "p", "env"] := by
    rw [htarget, pathNames_join env (hash.join_ne_empty _) (hash.getLast?_join _),
      pathNames_join hash (by decide) (by decide)]
    rfl
  have relative : Path.isAbsolute target = false := by
    rw [htarget, Path.isAbsolute_join env (hash.join_ne_empty _),
      Path.isAbsolute_join hash (by decide)]
    rfl
  have way : t.walk true linkLimit [] (pathNames sampleLayout.environmentDir) =
      some (sampleStorage ++ ["env"]) := by
    rw [show pathNames sampleLayout.environmentDir = ["cfg", "rules-venv"] by decide,
      walk_of_directory (by decide) h.cfg, walk, if_neg (by decide), if_neg (by decide),
      if_neg (by decide)]
    simp only [List.nil_append, List.cons_append, h.link, ← htarget, linkLimit, List.isEmpty_nil,
      Bool.not_true, Bool.and_false, Bool.false_eq_true, if_false, relative, names]
    exact (walk_of_directory (by decide) h.rules).trans <|
      (walk_of_directory hash h.storage).trans <| walk_singleton_of_not_link env noLink
  rw [find?_of_walk (by decide) (by decide) way, Option.bind_some]

theorem wellFormed_sharedHost : sharedHost.WellFormed := by
  have one := wellFormed_empty.set (l := []) (e := .directory) (show IsName "cfg" by decide) rfl
    (by decide)
  have two := one.set (l := ["cfg"]) (e := .directory) (show IsName "rules" by decide) (by decide)
    (by decide)
  have three := two.set (l := ["cfg", "rules"]) (e := .directory) (Source.isName_hash "p")
    (by decide) (by simp [get?_set, get?_empty])
  have four := three.set (l := sampleStorage) (e := .directory) (show IsName "env" by decide)
    (by simp [sampleStorage, storageAt, get?_set])
    (by simp [sampleStorage, storageAt, get?_set, get?_empty])
  have five := four.set (l := ["cfg"]) (show IsName "rules-venv" by decide)
    (by simp [sampleStorage, storageAt, get?_set])
    (by simp [sampleStorage, storageAt, get?_set, get?_empty])
    (.link (Path.join (Path.join "rules" (Source.hash "p")) "env"))
  exact five.set (l := []) (show IsName "p" by decide) rfl
    (by simp [sampleStorage, storageAt, get?_set, get?_empty]) .directory

theorem fetch_sharedHost :
    fetch sampleLayout "/" "p" sharedHost = (.ok (sampleLayout.storage "p"), sharedFetched) := by
  have host := isShared_sharedHost
  have fetched := isShared_sharedFetched
  have hash := Source.isName_hash "p"
  have size := size_sampleStorage.trans_lt (show 75 < pathLimit by decide)
  have free := get?_erase_self sharedHost (storageAt_ne_nil ["cfg", "rules"] "p")
  have kept : (sharedHost.erase sampleStorage).Leads sampleLayout.rulesDir ["cfg", "rules"] := by
    refine ((leads_root _).join (show IsName "cfg" by decide) (by decide) ?_).join
      (show IsName "rules" by decide) (by decide) ?_
    · exact (get?_erase_of_not_below (not_below_sampleStorage (by decide))).trans host.cfg
    · exact (get?_erase_of_not_below fun below => (below_of_storageAt below).2 rfl).trans host.rules
  have made := (ensureDirectory_join kept hash free).2 ⟨size, rfl⟩
  have source {v : FileTree} (h : v.get? ["p"] = some .directory) :
      v.Leads (Source.resolve "/" "p") ["p"] :=
    (leads_root v).join (show IsName "p" by decide) (by decide) h
  have listed : sharedFetched.listing? (Source.resolve "/" "p") = some [] := by
    have wf : sharedFetched.WellFormed := (wellFormed_sharedHost.erase sampleStorage).set hash kept.2
      (fun stands => nomatch free.symm.trans stands) _
    have none (name : String) : sharedFetched.get? ["p", name] = none := by
      rw [sharedFetched, get?_set_of_ne _ (by simp [sampleStorage, storageAt]),
        get?_erase_of_not_below (not_below_sampleStorage (by simp))]
      simp [sharedHost, sampleStorage, storageAt, get?_set, get?_empty]
    rw [listing?_of_leads (source ?_), wf.listing_eq .nil]
    · intro x
      rw [List.cons_append, List.nil_append, none]
      simp
    · rw [sharedFetched, get?_set_of_ne _ (by simp [sampleStorage, storageAt]),
        get?_erase_of_not_below (not_below_sampleStorage (by simp))]
      simp [sharedHost, get?_set]
  refine fetch_of_copied (by decide) (isDirectory_iff_leads.2 ⟨_, source ?_⟩)
    (clear?_of_stored host.leads_rulesDir size host.storage) ?_
  · simp [sharedHost, get?_set]
  · rw [copyDirectory, show (sharedHost.erase (storageAt ["cfg", "rules"] "p")).ensureDirectory
      (sampleLayout.storage "p") = some sharedFetched from made]
    simp only [listed]
    rw [copyListed.eq_def]

/-- A root that has the name of the storage of the source `p`. -/
def loopedLayout : Layout := ⟨Path.join "/d" (Source.hash "p")⟩

/-- A host on which the rule cache of that root is a link back to the directory above the root. -/
def loopedHost : FileTree :=
  ((FileTree.empty.set ["d"] .directory).set ["d", Source.hash "p"] .directory).set
    ["d", Source.hash "p", "rules"] (.link "..")

theorem wellFormed_loopedHost : loopedHost.WellFormed := by
  have one := wellFormed_empty.set (l := []) (e := .directory) (show IsName "d" by decide) rfl
    (by decide)
  have two := one.set (l := ["d"]) (e := .directory) (Source.isName_hash "p") (by decide)
    (by simp [get?_set, get?_empty])
  exact two.set (l := ["d", Source.hash "p"]) (show IsName "rules" by decide) (by simp [get?_set])
    (by simp [get?_set, get?_empty]) (.link "..")

theorem size_loopedRoot : loopedLayout.root.utf8ByteSize ≤ 67 := by
  have fits := (Source.isName_hash "p").utf8ByteSize_join_le "/d"
  rwa [Source.utf8ByteSize_hash, show ("/d" : String).utf8ByteSize = 2 by decide] at fits

theorem size_loopedRulesDir : loopedLayout.rulesDir.utf8ByteSize ≤ 73 := by
  have fits := IsName.utf8ByteSize_join_le (show IsName "rules" by decide) loopedLayout.root
  rw [show ("rules" : String).utf8ByteSize = 5 by decide] at fits
  have root := size_loopedRoot
  rw [rulesDir]
  omega

theorem size_loopedStorage : (loopedLayout.storage "p").utf8ByteSize ≤ 138 := by
  have fits := (Source.isName_hash "p").utf8ByteSize_join_le loopedLayout.rulesDir
  have rules := size_loopedRulesDir
  rw [Source.utf8ByteSize_hash] at fits
  rw [storage, Source.storage]
  omega

theorem leads_loopedRoot : loopedHost.Leads loopedLayout.root ["d", Source.hash "p"] := by
  have short := size_loopedRoot.trans_lt (show 67 < pathLimit by decide)
  have above : loopedHost.Leads "/d" ["d"] := by
    rw [← show Path.join "/" "d" = "/d" by decide]
    exact (leads_root loopedHost).join (by decide) (by decide) (by simp [loopedHost, get?_set])
  exact above.join (Source.isName_hash "p") short (by simp [loopedHost, get?_set])

/-- The way to the rule cache goes back through the link to the directory above the root. -/
theorem leads_loopedRulesDir : loopedHost.Leads loopedLayout.rulesDir ["d"] := by
  have hash := Source.isName_hash "p"
  have rules : IsName "rules" := by decide
  have link : loopedHost.get? (["d", Source.hash "p"] ++ ["rules"]) = some (.link "..") := by
    simp [loopedHost, get?_set]
  obtain ⟨root, hroot⟩ : ∃ root, root = Path.join "/d" (Source.hash "p") := ⟨_, rfl⟩
  have whole : loopedLayout.rulesDir = Path.join root "rules" := hroot ▸ rfl
  have nonempty : root ≠ "" := hroot ▸ hash.join_ne_empty "/d"
  have names : pathNames loopedLayout.rulesDir = ["d", Source.hash "p", "rules"] := by
    rw [whole, pathNames_join rules nonempty (hroot ▸ hash.getLast?_join "/d"), hroot,
      pathNames_join hash (by decide) (by decide)]
    rfl
  have absolute : Path.isAbsolute loopedLayout.rulesDir = true := by
    rw [whole, Path.isAbsolute_join rules nonempty, hroot, Path.isAbsolute_join hash (by decide)]
    rfl
  refine ⟨?_, by simp [loopedHost, get?_set]⟩
  rw [locate_eq (whole ▸ rules.join_ne_empty root) (size_loopedRulesDir.trans_lt (by decide)),
    names, startOf, absolute, if_pos rfl]
  rw [walk_of_directory (by decide) (by simp [loopedHost, get?_set]),
    walk_of_directory hash (by simp [loopedHost, get?_set]), List.nil_append, List.singleton_append,
    walk, if_neg (by decide), if_neg (by decide), if_neg (by decide)]
  simp only [link, linkLimit, List.isEmpty_nil, Bool.not_true, Bool.and_false, Bool.false_eq_true,
    if_false, show Path.isAbsolute ".." = false by decide,
    show pathNames ".." ++ [] = [".."] by decide]
  rw [walk_parent, walk]
  rfl

/-- An environment in a storage goes with it, and so does a root in whose place a storage stands. -/
theorem storage_not_spared :
    (sharedHost.WellFormed ∧ sharedHost.isDirectory sampleLayout.environmentDir = true ∧
      fetch sampleLayout "/" "p" sharedHost = (.ok (sampleLayout.storage "p"), sharedFetched) ∧
      sharedFetched.isDirectory sampleLayout.environmentDir = false) ∧
    loopedHost.WellFormed ∧ loopedHost.Leads loopedLayout.root ["d", Source.hash "p"] ∧
      ∃ u, clear? loopedHost (loopedLayout.storage "p") = some u ∧
        u.get? ["d", Source.hash "p"] = none := by
  refine ⟨⟨wellFormed_sharedHost, ?_, fetch_sharedHost, ?_⟩, wellFormed_loopedHost, ?_, ?_⟩
  · have stands : sharedHost.get? (sampleStorage ++ ["env"]) = some .directory := by
      simp [sharedHost, sampleStorage, storageAt, get?_set]
    rw [isDirectory, isShared_sharedHost.find?_environmentDir (by simp [stands]), stands]
  · have gone : sharedFetched.get? (sampleStorage ++ ["env"]) = none := by
      rw [sharedFetched, get?_set_of_ne _ (by simp), get?_erase _ _ (by simp),
        if_pos (List.prefix_append _ _)]
    rw [isDirectory, isShared_sharedFetched.find?_environmentDir (by simp [gone]), gone]
  · exact leads_loopedRoot
  · have stored : loopedHost.get? (storageAt ["d"] "p") = some .directory := leads_loopedRoot.2
    exact ⟨_, clear?_of_stored leads_loopedRulesDir (size_loopedStorage.trans_lt (by decide)) stored,
      get?_erase_self loopedHost (storageAt_ne_nil ["d"] "p")⟩

end Layout

end HouseRules
