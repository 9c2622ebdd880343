import HouseRules.Proofs.Fetch.Replacement
import HouseRules.Proofs.Fetch.Walk
import Mathlib.Data.List.Perm.Subperm

/-! Whether copying comes to what it made itself. A storage is made after it was cleared and before
its source is listed, and a directory of the source is listed when its turn comes. So a source above
its storage holds new entries, and copying comes to them unless a name on the way is left out. Else
it comes to old entries only, to each of them once. -/

namespace HouseRules

open FileTree

-- only that digests are names matters, never what they are
attribute [local irreducible] Source.hash

/-! ### Entries below a location -/

namespace FileTree

theorem length_below (t : FileTree) (l : Location) :
    (t.below l).length = (t.entries.filter fun x => l.isPrefixOf x.1 && x.1 ≠ l).length := by
  rw [below, List.length_mergeSort, List.length_filterMap_eq_countP, List.countP_eq_length_filter]
  congr 2
  funext ⟨m, e⟩
  rcases h : l.isPrefixOf m && decide (m ≠ l)
  · simp only [h, Bool.false_eq_true, if_false, Option.isSome_none]
  · cases e <;> simp only [h, if_true, Option.isSome_some]

/-- There are no more places below a location than entries. -/
theorem le_length_below {t : FileTree} {l : Location} {ms : List Location} (nodup : ms.Nodup)
    (h : ∀ m ∈ ms, l <+: m ∧ m ≠ l ∧ ∃ e, t.get? m = some e) : ms.length ≤ (t.below l).length := by
  rw [length_below, ← List.length_map (f := Prod.fst)]
  have sub : ms ⊆ (t.entries.filter fun x => l.isPrefixOf x.1 && x.1 ≠ l).map Prod.fst := by
    intro m mem
    obtain ⟨below, hne, e, he⟩ := h m mem
    have hm : m ≠ [] := by
      rintro rfl
      exact hne (List.prefix_nil.1 below).symm
    refine List.mem_map.2 ⟨(m, e), List.mem_filter.2 ⟨mem_entries_of_get? hm he, ?_⟩, rfl⟩
    simpa [hne] using below
  exact (nodup.subperm sub).length_le

end FileTree

namespace Fetch

open Layout

variable {layout : Layout} {base location origin p : String} {t cleared made : FileTree}
  {r d s : Location} {complete : Bool} {steps : List Step}

/-! ### New storages -/

/-- What is new in a tree after a storage was made: the storage, and missing directories above. -/
structure Opened (cleared made : FileTree) (s : Location) : Prop where
  free : cleared.get? s = none
  frame : ∀ m, made.get? m = cleared.get? m ∨
    cleared.get? m = none ∧ made.get? m = some .directory ∧ m <+: s

theorem opened_set {v : FileTree} (hs : s ≠ []) (free : cleared.get? s = none)
    (frame : ∀ m, v.get? m = cleared.get? m ∨
      cleared.get? m = none ∧ v.get? m = some .directory ∧ m <+: s) :
    Opened cleared (v.set s .directory) s := by
  refine ⟨free, fun m => ?_⟩
  rw [get?_set v hs]
  split
  · rename_i same
    subst same
    exact .inr ⟨free, rfl, List.prefix_rfl⟩
  · exact frame m

/-- A storage that was cleared and made is new. -/
theorem exists_opened (wf : t.WellFormed) (hcwd : t.get? t.cwd = some .directory)
    (steady : layout.Steady t location)
    (hclear : clear? t (layout.storage location) = some cleared)
    (hmade : cleared.ensureDirectory (layout.storage location) = some made) :
    ∃ r, Prepared layout location t made r ∧ Opened cleared made (storageAt r location) := by
  have hname := Source.isName_hash location
  rcases hdir : t.isDirectory layout.rulesDir
  · -- the rules directory is made together with the storage
    obtain rfl := eq_of_clear? wf hcwd hdir hclear
    have missing : cleared.exists? layout.rulesDir = false := by
      by_contra stands
      have there := isDirectory_of_ensureDirectory_join wf hcwd (show IsName "rules" by decide) hname
        (Bool.of_not_eq_false stands) hmade
      cases hdir.symm.trans there
    obtain ⟨r, prepared⟩ := prepared_of_missing wf hcwd missing (steady.down missing) hmade
    obtain ⟨r', v, leads, grown, empty, rfl⟩ := ensureDirectory_join_of_missing wf hcwd hname
      layout.rulesDir_ne_empty (steady.down missing) missing hmade
    have free := empty [Source.hash location] (List.cons_ne_nil _ [])
    obtain rfl := prepared.leads_rulesDir.unique
      ((within_set (by simp) free .directory).leads leads)
    refine ⟨r, prepared, opened_set (storageAt_ne_nil r location) ?_ fun m => ?_⟩
    · rcases hget : cleared.get? (storageAt r location) with _ | e
      · exact hget
      · cases (grown.within.get?_eq hget).symm.trans free
    · rcases hget : cleared.get? m with _ | e
      · rcases hv : v.get? m with _ | e
        · exact .inl rfl
        · obtain ⟨rfl, above⟩ := grown.of_new hv hget
          exact .inr ⟨rfl, rfl, above.trans (List.prefix_append r _)⟩
      · exact .inl (grown.within.get?_eq hget)
  · obtain ⟨r, leads⟩ := isDirectory_iff_leads.1 hdir
    have prepared := prepared_of_leads wf leads (steady.kept r leads) hclear hmade
    refine ⟨r, prepared, ?_⟩
    obtain ⟨rfl, missing⟩ | ⟨rfl, -⟩ := clear?_storage leads hclear
    · obtain ⟨there, -⟩ | hmade := ensureDirectory_join_cases leads hname hmade
      · cases (exists?_of_isDirectory there).symm.trans missing
      · obtain ⟨-, free, rfl⟩ := of_makeDirectory?_join leads hname hmade
        exact opened_set (storageAt_ne_nil r location) free fun m => .inl rfl
    · have free := get?_erase_self t (storageAt_ne_nil r location)
      obtain ⟨-, rfl⟩ := (ensureDirectory_join (steady.kept r leads) hname free).1 hmade
      exact opened_set (storageAt_ne_nil r location) free fun m => .inl rfl

/-! ### Ways to the storage -/

/-- Every directory on the way from a location down to a storage is there, up to the first name that
is left out. As the storage itself is not there, a name is left out if there is a way at all. -/
def Shielded (t : FileTree) (d s : Location) : Prop :=
  ∀ names, names ≠ [] → d ++ names <+: s → (∀ name ∈ names, name ∉ skippedNames) →
    (t.get? (d ++ names)).isSome = true

theorem apart_of_shielded (free : cleared.get? (storageAt r location) = none)
    (shielded : Shielded cleared d (storageAt r location))
    (outside : ¬storageAt r location <+: d) : Apart d (storageAt r location) := by
  intro rel passes below
  obtain ⟨before, way, kept⟩ := Fetched.exists_kept_way outside passes below
  have there := shielded (before ++ [Source.hash location]) (by simp) (way ▸ List.prefix_rfl) kept
  rw [← way, free] at there
  cases there

/-- What stands on a way that is shielded was there before. -/
theorem Opened.get?_of_isStep (opened : Opened cleared made s) (shielded : Shielded cleared d s)
    {v : Step} (h : IsStep made d v) : cleared.get? (d ++ v.1) = some v.2 := by
  obtain same | ⟨missing, directory, above⟩ := opened.frame (d ++ v.1)
  · rw [← same]
    exact h.get?_eq
  · have hdir : v.2 = .directory := Option.some.inj (h.get?_eq.symm.trans directory)
    have there := shielded v.1 h.ne_nil above (h.kept hdir)
    rw [missing] at there
    cases there

namespace Prepared

/-- Copying to a storage with a shielded way comes to old entries only. -/
theorem get?_of_mem (prepared : Prepared layout location t made r)
    (opened : Opened cleared made (storageAt r location)) (leads : made.Leads origin d)
    (walks : Walks complete made origin (storageAt r location) (made.listing d) steps)
    (shielded : Shielded cleared d (storageAt r location)) :
    ∀ v ∈ steps, cleared.get? (d ++ v.1) = some v.2 := by
  have wf := prepared.wellFormed
  intro v mem
  by_cases inside : storageAt r location <+: d
  · -- in an empty storage there is nothing to come to
    obtain ⟨name, listed, -⟩ := walks.head?_mem v.1 (List.mem_map.2 ⟨v, mem, rfl⟩)
    obtain ⟨x, listed, -⟩ := List.mem_map.1 listed
    obtain ⟨rel, rfl⟩ := inside
    have entry := wf.mem_listing.1 listed
    rw [List.append_assoc, prepared.empty _ (by simp)] at entry
    cases entry
  · have beside : Beside made made origin d (storageAt r location) :=
      ⟨leads, fun _ _ => rfl, apart_of_shielded opened.free shielded inside⟩
    exact opened.get?_of_isStep shielded (walks.isStep wf
      (fun x listed => wf.isName_of_get? (wf.mem_listing.1 listed) (by simp)) beside
      List.prefix_rfl (fun x listed => wf.mem_listing.1 listed) v mem)

/-- Copying to a storage with a shielded way has no more steps than there were entries. -/
theorem length_le (prepared : Prepared layout location t made r)
    (walks : Walks complete made origin (storageAt r location) (made.listing d) steps)
    (old : ∀ v ∈ steps, cleared.get? (d ++ v.1) = some v.2) :
    steps.length ≤ (cleared.below d).length := by
  have wf := prepared.wellFormed
  have nodup := walks.nodup wf (by
    rw [List.nodup_iff_pairwise_ne, List.pairwise_map]
    exact (wf.pairwise_listing d).imp fun h => ne_of_lt h)
  rw [← List.length_map (f := fun v : Step => d ++ v.1)]
  refine le_length_below ?_ (List.forall_mem_map.2 fun v mem => ?_)
  · rw [show (fun v : Step => d ++ v.1) = (d ++ ·) ∘ Prod.fst from rfl, ← List.map_map]
    exact nodup.map (List.append_right_injective d)
  · obtain ⟨name, -, head⟩ := walks.head?_mem v.1 (List.mem_map.2 ⟨v, mem, rfl⟩)
    have hne : v.1 ≠ [] := by
      intro empty
      rw [empty] at head
      cases head
    exact ⟨List.prefix_append d v.1, by simpa using hne, v.2, old v mem⟩

/-- Copying that goes through and comes to old entries only has a shielded way. -/
theorem shielded (prepared : Prepared layout location t made r) (leads : made.Leads origin d)
    (walks : Walks true made origin (storageAt r location) (made.listing d) steps)
    (old : ∀ v ∈ steps, (cleared.get? (d ++ v.1)).isSome = true) :
    Shielded cleared d (storageAt r location) := by
  have wf := prepared.wellFormed
  intro names hne above kept
  have directory {n : Location} : n <+: storageAt r location → made.get? n = some .directory :=
    wf.directory_of_prefix prepared.stored
  obtain ⟨name, names, rfl⟩ := List.exists_cons_of_ne_nil hne
  refine old _ (walks.mem_of_directory wf
    (fun x listed => wf.isName_of_get? (wf.mem_listing.1 listed) (by simp)) leads
    (wf.mem_listing.2 (directory ?_)) kept (directory above))
  rw [List.append_cons] at above
  exact (List.prefix_append _ _).trans above

end Prepared

/-- The copying of a fetch, with what it comes to. -/
theorem walkDirectory_of_leads (hmade : cleared.ensureDirectory (layout.storage location) = some made)
    (leads : made.Leads origin d) : walkDirectory cleared origin (layout.storage location) =
      walkListed origin (roomBelow (layout.storage location)) made origin (layout.storage location)
        (made.listing d) := by
  rw [walkDirectory, hmade]
  simp only [listing?_of_leads leads]

/-- Copying to a storage two or more levels below its source fails, unless a name on the way is left
out. -/
theorem Prepared.failure_ne_none (prepared : Prepared layout location t made r)
    (hmade : cleared.ensureDirectory (layout.storage location) = some made)
    (leads : made.Leads origin d) {first second : String} {more : List String}
    (place : storageAt r location = d ++ first :: second :: more)
    (kept : ∀ name ∈ first :: second :: more, name ∉ skippedNames) :
    (walkDirectory cleared origin (layout.storage location)).copied.failure ≠ none := by
  intro complete
  have ready := prepared.ready (listing?_of_leads leads)
  rw [walkDirectory_of_leads hmade leads, walkListed_copied] at complete
  have copies := copies_of_copyListed (congrArg (Copied.mk _) complete) ready prepared.room
  have directory := prepared.stored
  rw [place, List.append_cons] at directory
  exact not_copies_below copies ready prepared.room leads place kept (prepared.wellFormed.mem_listing.2
      (prepared.wellFormed.get?_of_append (List.cons_ne_nil second more) directory))

theorem fetch_of_walk (isLocal : Source.isRemote location = false)
    (stands : t.isDirectory (Source.resolve base location) = true)
    (hclear : clear? t (layout.storage location) = some cleared) :
    fetch layout base location t =
      match (walkDirectory cleared (Source.resolve base location)
        (layout.storage location)).copied with
      | ⟨u, none⟩ => (.ok (layout.storage location), u)
      | ⟨u, some e⟩ => (.error e, u) := by
  rw [walkDirectory_copied, fetch]
  simp only [isLocal, stands, hclear]
  rfl

/-- There is nothing to come to where no directory is found. -/
theorem exists_leads_of_steps (h : (walkDirectory cleared origin p).steps ≠ []) :
    ∃ made d, cleared.ensureDirectory p = some made ∧ made.Leads origin d := by
  rw [walkDirectory] at h
  split at h
  · exact absurd rfl h
  rename_i made hmade
  split at h
  · exact absurd rfl h
  rename_i inside hinside
  rw [FileTree.listing?] at hinside
  split at hinside
  · cases hinside
  rename_i d hd
  split at hinside
  · cases hinside
  · rename_i directory
    exact ⟨made, d, hmade, hd, directory⟩
  · cases hinside
    rw [walkListed_nil] at h
    exact absurd rfl h

/-- What a fetch comes to while it copies. If the way from the source to the storage is shielded, it
comes to entries that were there when the storage was cleared, and not more often than there are.
If it is not, the fetch comes to new ones too or fails; and it fails wherever a storage is two or
more levels below its source on a way without a name that is left out. -/
theorem fetch_steps (wf : t.WellFormed) (hcwd : t.get? t.cwd = some .directory)
    (steady : layout.Steady t location) (isLocal : Source.isRemote location = false)
    (stands : t.isDirectory (Source.resolve base location) = true)
    (hclear : clear? t (layout.storage location) = some cleared) :
    let origin := Source.resolve base location
    let walk := walkDirectory cleared origin (layout.storage location)
    (fetch layout base location t = match walk.copied with
      | ⟨u, none⟩ => (.ok (layout.storage location), u)
      | ⟨u, some e⟩ => (.error e, u)) ∧
    (walk.steps ≠ [] → ∃ made d,
      cleared.ensureDirectory (layout.storage location) = some made ∧ made.Leads origin d) ∧
    ∀ made d, cleared.ensureDirectory (layout.storage location) = some made →
      made.Leads origin d → ∃ s, made.Leads (layout.storage location) s ∧
      (Shielded cleared d s → (∀ v ∈ walk.steps, cleared.get? (d ++ v.1) = some v.2) ∧
        walk.steps.length ≤ (cleared.below d).length) ∧
      (walk.copied.failure = none →
        (∀ v ∈ walk.steps, (cleared.get? (d ++ v.1)).isSome = true) → Shielded cleared d s) ∧
      ∀ first second more, s = d ++ first :: second :: more →
        (∀ name ∈ first :: second :: more, name ∉ skippedNames) → walk.copied.failure ≠ none := by
  intro origin walk
  refine ⟨fetch_of_walk isLocal stands hclear, exists_leads_of_steps, fun made d hmade leads => ?_⟩
  obtain ⟨r, prepared, opened⟩ := exists_opened wf hcwd steady hclear hmade
  have ready := prepared.ready (listing?_of_leads leads)
  have run : walk = _ := walkDirectory_of_leads hmade leads
  have walks : Walks walk.copied.failure.isNone made origin (storageAt r location)
      (made.listing d) walk.steps := by
    rw [run]
    exact walks_walkListed ready prepared.room
  refine ⟨storageAt r location, prepared.leads, fun shielded => ?_, fun complete old => ?_,
    fun _ _ _ place kept => prepared.failure_ne_none hmade leads place kept⟩
  · have old := prepared.get?_of_mem opened leads walks shielded
    exact ⟨old, prepared.length_le walks old⟩
  · rw [complete] at walks
    exact prepared.shielded leads walks old

/-- The host with the storage cleared. -/
def sampleErased : FileTree := (sampleHost (.file [] true)).erase sampleStorage

/-- The copying of the source on the host. -/
def sampleWalk : Walked :=
  walkDirectory sampleErased (Source.resolve "/" "p") (sampleLayout.storage "p")

theorem fetch_steps_sampleHost :
    (sampleHost (.file [] true)).WellFormed ∧
    (sampleHost (.file [] true)).get? (sampleHost (.file [] true)).cwd = some .directory ∧
    sampleLayout.Steady (sampleHost (.file [] true)) "p" ∧ Source.isRemote "p" = false ∧
    (sampleHost (.file [] true)).isDirectory (Source.resolve "/" "p") = true ∧
    clear? (sampleHost (.file [] true)) (sampleLayout.storage "p") = some sampleErased ∧
    (∀ v ∈ sampleWalk.steps, sampleErased.get? (["p"] ++ v.1) = some v.2) ∧
    sampleWalk.steps.length ≤ (sampleErased.below ["p"]).length := by
  have wf := wellFormed_sampleHost (.file [] true)
  have steady := (rooted_sampleHost (.file [] true)).steady "p"
  have stands := isDirectory_iff_leads.2 ⟨_, (HasSample.host (.file [] true)).leads_source⟩
  obtain ⟨hclear, hmade, prepared⟩ := prepared_sampleHost (.file [] true)
  have leads := (hasSample_sampleCleared (.file [] true)).leads_source
  obtain ⟨-, -, all⟩ := fetch_steps wf rfl steady (by decide) stands hclear
  obtain ⟨s, storage, old, -⟩ := all _ _ hmade leads
  obtain rfl := prepared.leads.unique storage
  have shielded : Shielded sampleErased ["p"] (storageAt ["cfg", "rules"] "p") :=
    fun names _ above => by simp [storageAt] at above
  exact ⟨wf, rfl, steady, by decide, stands, hclear, old shielded⟩

/-! ### A source that holds its cache -/

/-- A cache in a directory of its source. -/
def nestedLayout : Layout := ⟨"/p/cfg"⟩

/-- Where the source `p` is stored in that. -/
def nestedStorage : Location := storageAt ["p", "cfg", "rules"] "p"

/-- A source in `/p` that holds nothing but the rules directory. -/
def nestedHost : FileTree :=
  ((FileTree.empty.set ["p"] .directory).set ["p", "cfg"] .directory).set ["p", "cfg", "rules"]
    .directory

/-- The host with an empty storage. -/
def nestedMade : FileTree := nestedHost.set nestedStorage .directory

/-- The host when the rules directory is listed. -/
def nestedOpened : FileTree := nestedMade.set (nestedStorage ++ ["cfg"]) .directory

theorem wellFormed_nestedHost : nestedHost.WellFormed := by decide

theorem leads_nestedRules : nestedHost.Leads nestedLayout.rulesDir ["p", "cfg", "rules"] :=
  (((leads_root _).join (show IsName "p" by decide) (by decide) (by decide)).join
    (show IsName "cfg" by decide) (by decide) (by decide)).join
    (show IsName "rules" by decide) (by decide) (by decide)

theorem size_nestedStorage : (nestedLayout.storage "p").utf8ByteSize ≤ 77 := by
  have fits := (Source.isName_hash "p").utf8ByteSize_join_le nestedLayout.rulesDir
  rwa [Source.utf8ByteSize_hash, show nestedLayout.rulesDir.utf8ByteSize = 12 by decide] at fits

theorem free_nestedStorage : nestedHost.get? nestedStorage = none := by
  simp [nestedHost, nestedStorage, storageAt, get?_set, get?_empty]

theorem clear?_nestedHost : clear? nestedHost (nestedLayout.storage "p") = some nestedHost := by
  have absent : nestedHost.find? (nestedLayout.storage "p") = none := by
    rw [Layout.storage, Source.storage, leads_nestedRules.find?_join (Source.isName_hash "p")
      (fun target link => by cases free_nestedStorage.symm.trans link)]
    split
    · exact free_nestedStorage
    · rfl
  rw [clear?, exists?, absent]
  rfl

theorem made_nestedHost :
    nestedHost.ensureDirectory (nestedLayout.storage "p") = some nestedMade :=
  (ensureDirectory_join leads_nestedRules (Source.isName_hash "p") free_nestedStorage).2
    ⟨size_nestedStorage.trans_lt (by decide), rfl⟩

theorem prepared_nestedHost :
    Prepared nestedLayout "p" nestedHost nestedMade ["p", "cfg", "rules"] :=
  prepared_set wellFormed_nestedHost rfl leads_nestedRules
    (size_nestedStorage.trans_lt (by decide)) free_nestedStorage (fun _ _ => .inl rfl)
    (.inl leads_nestedRules) (.inl free_nestedStorage)

/-- The copying of the source on the host. -/
def nestedWalk : Walked :=
  walkDirectory nestedHost (Source.resolve "/" "p") (nestedLayout.storage "p")

theorem leads_nestedSource : nestedMade.Leads (Source.resolve "/" "p") ["p"] :=
  (leads_root _).join (show IsName "p" by decide) (by decide)
    (by simp [nestedMade, nestedHost, nestedStorage, storageAt, get?_set])

theorem listing_nestedSource : nestedMade.listing ["p"] = [("cfg", .directory)] :=
  prepared_nestedHost.wellFormed.listing_eq_singleton fun other => by
    simp [nestedMade, nestedHost, nestedStorage, storageAt, get?_set, get?_empty]

theorem listing?_nestedConfig : nestedMade.listing? (Path.join (Source.resolve "/" "p") "cfg") =
    some [("rules", .directory)] := by
  have leads := leads_nestedSource.join (show IsName "cfg" by decide) (by decide)
    (by simp [nestedMade, nestedHost, nestedStorage, storageAt, get?_set])
  rw [listing?_of_leads leads]
  exact congrArg some (prepared_nestedHost.wellFormed.listing_eq_singleton fun other => by
    simp [nestedMade, nestedHost, nestedStorage, storageAt, get?_set, get?_empty])

theorem listing?_nestedRules (wf : nestedOpened.WellFormed)
    (leads : nestedOpened.Leads nestedLayout.rulesDir ["p", "cfg", "rules"]) :
    nestedOpened.listing? nestedLayout.rulesDir = some [(Source.hash "p", .directory)] := by
  rw [listing?_of_leads leads]
  exact congrArg some (wf.listing_eq_singleton fun other => by
    simp [nestedOpened, nestedMade, nestedHost, nestedStorage, storageAt, get?_set, get?_empty])

/-- What is listed in the source and below it is the next directory on the way to the storage. -/
theorem steps_nestedWalk : [(["cfg"], Entry.directory), (["cfg", "rules"], .directory),
    (["cfg", "rules", Source.hash "p"], .directory)] <+: nestedWalk.steps := by
  have prepared := prepared_nestedHost
  have wide : 4018 ≤ roomBelow (nestedLayout.storage "p") := by
    have fits := size_nestedStorage
    rw [roomBelow, pathLimit]
    omega
  have cfg : "cfg".utf8ByteSize = 3 := by decide
  have rules : "rules".utf8ByteSize = 5 := by decide
  have ready := prepared.ready (listing?_of_leads leads_nestedSource)
  rw [listing_nestedSource] at ready
  obtain ⟨ready', room, first⟩ := walkListed_enter (Source.resolve "/" "p") ready
    prepared.room (by decide) (by omega) listing?_nestedConfig
  have within := (ready.grown_set .directory).within
  obtain ⟨ready'', room', second⟩ := walkListed_enter (Source.resolve "/" "p") ready' room
    (by decide) (by omega)
    (listing?_nestedRules ready'.wellFormed (within.leads prepared.leads_rulesDir))
  have within' := within.trans (ready'.grown_set .directory).within
  obtain ⟨-, -, third⟩ := walkListed_enter (Source.resolve "/" "p") ready'' room'
    (Fetched.hash_not_mem_skippedNames "p") (by rw [Source.utf8ByteSize_hash]; omega)
    (listing?_of_leads (within'.leads prepared.leads))
  rw [nestedWalk, walkDirectory_of_leads made_nestedHost leads_nestedSource, listing_nestedSource]
  have storage : [([Source.hash "p"], Entry.directory)] <+: _ :=
    (List.prefix_append _ _).trans third
  have below : [(["rules"], Entry.directory), (["rules", Source.hash "p"], .directory)] <+: _ :=
    ((List.prefix_cons_inj _).2 (storage.map (Step.below "rules"))).trans second
  exact ((List.prefix_cons_inj _).2 (below.map (Step.below "cfg"))).trans first

/-- A source that holds its cache comes to the storage, which was not there when it had been
cleared, has more steps than there were entries, and fails. -/
theorem walk_comes_to_storage :
    nestedHost.WellFormed ∧ nestedHost.get? nestedHost.cwd = some .directory ∧
    Source.isRemote "p" = false ∧ nestedHost.Leads (Source.resolve "/" "p") ["p"] ∧
    clear? nestedHost (nestedLayout.storage "p") = some nestedHost ∧
    nestedWalk.copied =
      copyDirectory nestedHost (Source.resolve "/" "p") (nestedLayout.storage "p") ∧
    (∃ v ∈ nestedWalk.steps, nestedHost.get? (["p"] ++ v.1) = none) ∧
    (nestedHost.below ["p"]).length < nestedWalk.steps.length ∧
    ∃ e u, fetch nestedLayout "/" "p" nestedHost = (.error e, u) := by
  have leads : nestedHost.Leads (Source.resolve "/" "p") ["p"] :=
    (leads_root _).join (show IsName "p" by decide) (by decide) (by decide)
  have steps := steps_nestedWalk
  refine ⟨wellFormed_nestedHost, rfl, by decide, leads, clear?_nestedHost, walkDirectory_copied,
    ⟨(["cfg", "rules", Source.hash "p"], .directory), steps.subset (by simp), free_nestedStorage⟩,
    ?_, ?_⟩
  · rw [length_below]
    exact (show _ < 3 by decide).trans_le steps.length_le
  · rw [fetch_of_walk (by decide) (isDirectory_iff_leads.2 ⟨_, leads⟩) clear?_nestedHost]
    have failed := prepared_nestedHost.failure_ne_none made_nestedHost leads_nestedSource
      (show storageAt ["p", "cfg", "rules"] "p" = ["p"] ++ "cfg" :: "rules" :: [Source.hash "p"] from
        rfl) (by simpa [skippedNames] using Fetched.hash_not_mem_skippedNames "p")
    rcases hcopied : nestedWalk.copied with ⟨u, _ | e⟩
    · exact absurd (congrArg Copied.failure hcopied) failed
    · exact ⟨e, u, by rw [show walkDirectory _ _ _ = nestedWalk from rfl, hcopied]⟩

end Fetch

end HouseRules
