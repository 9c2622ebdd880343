import HouseRules.Proofs.Fetch.Outcome

/-! Fetching sources one after another. In the end the storage of each holds what is kept of the
source, also when others were fetched after it: those change only their own storages. -/

namespace HouseRules.Fetch

open FileTree Layout

-- only that digests are names matters, never what they are
attribute [local irreducible] Source.hash

/-- Sources that were fetched one after another, with the rules directory at one location. -/
inductive FetchedAll (layout : Layout) (base : String) (r : Location) :
    List String → FileTree → FileTree → Prop
  | nil {t} : FetchedAll layout base r [] t t
  | cons {location rest t u v made inside} :
      Fetched layout (Source.resolve base location) location t u made r inside →
      FetchedAll layout base r rest u v → FetchedAll layout base r (location :: rest) t v

variable {layout : Layout} {base location origin p : String} {t u v w : FileTree}
  {r d : Location} {sources storages : List String}

/-! ### Runs over several sources -/

theorem fetchAll_cons_eq_ok {rest : List String}
    (h : fetchAll layout base (location :: rest) t = (.ok storages, v)) :
    ∃ storage others u, fetch layout base location t = (.ok storage, u) ∧
      fetchAll layout base rest u = (.ok others, v) := by
  rw [fetchAll] at h
  split at h
  · cases h
  rename_i storage u hfetch
  split at h
  · cases h
  rename_i others v' hrest
  cases h
  exact ⟨storage, others, u, hfetch, hrest⟩

theorem fetchAll_singleton (h : fetch layout base location t = (.ok p, u)) :
    fetchAll layout base [location] t = (.ok [p], u) := by
  rw [fetchAll, h]
  rfl

theorem fetchedAll_of_leads (wf : t.WellFormed) (rooted : layout.Rooted t)
    (leads : t.Leads layout.rulesDir r)
    (h : fetchAll layout base sources t = (.ok storages, v)) :
    FetchedAll layout base r sources t v := by
  induction sources generalizing t storages with
  | nil =>
    cases h
    exact .nil
  | cons location rest ih =>
    obtain ⟨storage, others, u, hfetch, hrest⟩ := fetchAll_cons_eq_ok h
    have steady := rooted.steady location
    obtain ⟨-, -, -, made, r', inside, fetched⟩ := exists_fetched (fun hclear hmade =>
      ⟨r, prepared_of_leads wf leads (steady.kept r leads) hclear hmade⟩) hfetch
    obtain rfl := fetched.eq_of_leads leads
    exact .cons fetched
      (ih fetched.grown.wellFormed (fetched.rooted rooted) fetched.leads_rulesDir hrest)

/-- What succeeds is such a run. -/
theorem exists_fetchedAll (wf : t.WellFormed) (hcwd : t.get? t.cwd = some .directory)
    (rooted : layout.Rooted t) (h : fetchAll layout base sources t = (.ok storages, v)) :
    ∃ r, FetchedAll layout base r sources t v := by
  cases sources with
  | nil =>
    cases h
    exact ⟨[], .nil⟩
  | cons location rest =>
    obtain ⟨storage, others, u, hfetch, hrest⟩ := fetchAll_cons_eq_ok h
    obtain ⟨-, -, -, made, r, inside, fetched⟩ :=
      exists_fetched (exists_prepared wf hcwd (rooted.steady location)) hfetch
    exact ⟨r, .cons fetched (fetchedAll_of_leads fetched.grown.wellFormed (fetched.rooted rooted)
      fetched.leads_rulesDir hrest)⟩

/-- Outside the storages an existing rules directory and all else stay as they are. -/
theorem Fetched.get?_eq {made : FileTree} {inside : List (String × Entry)}
    (h : Fetched layout origin location t u made r inside) (wf : t.WellFormed)
    (leads : t.Leads layout.rulesDir r) {m : Location} (hm : ¬storageAt r location <+: m) :
    u.get? m = t.get? m := by
  obtain same | ⟨new, -, above⟩ := h.frame hm
  · exact same
  -- what is above the storage is there with the rules directory
  obtain rfl | above : m = storageAt r location ∨ m <+: r := by
    rw [storageAt, List.prefix_concat_iff] at above
    exact above
  · exact absurd List.prefix_rfl hm
  · cases (wf.directory_of_prefix leads.2 above).symm.trans new

namespace FetchedAll

theorem wellFormed (h : FetchedAll layout base r sources t v) (wf : t.WellFormed) :
    v.WellFormed := by
  induction h with
  | nil => exact wf
  | cons fetched _ ih => exact ih fetched.grown.wellFormed

theorem cwd_eq (h : FetchedAll layout base r sources t v) : t.cwd = v.cwd := by
  induction h with
  | nil => rfl
  | cons fetched _ ih => exact (fetched.prepared.cwd_eq.trans fetched.grown.within.cwd_eq).trans ih

/-- Outside the storages everything stays as it is. -/
theorem get?_eq (h : FetchedAll layout base r sources t v) (wf : t.WellFormed)
    (leads : t.Leads layout.rulesDir r) {m : Location}
    (hm : ∀ location ∈ sources, ¬storageAt r location <+: m) : v.get? m = t.get? m := by
  induction h with
  | nil => rfl
  | cons fetched _ ih =>
    rw [ih fetched.grown.wellFormed fetched.leads_rulesDir fun location mem =>
      hm location (List.mem_cons_of_mem _ mem)]
    exact fetched.get?_eq wf leads (hm _ List.mem_cons_self)

/-- The rules directory stays where it is. -/
theorem leads_rulesDir (h : FetchedAll layout base r sources t v)
    (leads : t.Leads layout.rulesDir r) : v.Leads layout.rulesDir r := by
  induction h with
  | nil => exact leads
  | cons fetched _ ih => exact ih fetched.leads_rulesDir

end FetchedAll

/-! ### Sources that stay apart from the cache -/

/-- Which files links lead to that would be kept has nothing to do with what is below a
location. -/
def LinksIgnore (t : FileTree) (p : String) (d r : Location) : Prop :=
  ∀ rel target, Passes rel → t.get? (d ++ rel) = some (.link target) →
    ∀ w : FileTree, t.cwd = w.cwd → (∀ m, ¬(r <+: m ∧ m ≠ r) → w.get? m = t.get? m) →
      ∀ content executable, w.find? (rel.foldl Path.join p) = some (.file content executable) ↔
        t.find? (rel.foldl Path.join p) = some (.file content executable)

/-- A source outside the rules directory, which is found without anything in that, and so are the
files that its links lead to. -/
structure Clear (t : FileTree) (origin : String) (d r : Location) : Prop where
  leads : (t.emptied r).Leads origin d
  not_inside : ¬r <+: d
  links : LinksIgnore t origin d r

/-- What is kept is the same in trees that agree on the ways to it. -/
theorem Keeps.of_agree {rel : List String} {e : Entry} (h : Keeps t p d rel e)
    (same : ∀ rel, Passes rel → t.get? (d ++ rel) = u.get? (d ++ rel))
    (links : ∀ rel target content executable, Passes rel → t.get? (d ++ rel) = some (.link target) →
      t.find? (rel.foldl Path.join p) = some (.file content executable) →
      u.find? (rel.foldl Path.join p) = some (.file content executable)) :
    Keeps u p d rel e := by
  induction h with
  | here hdir =>
    have := same [] (by simp [Passes])
    rw [List.append_nil] at this
    exact .here (this.symm.trans hdir)
  | @inside p d name rel e hdir hname _ ih =>
    refine .inside ((same [name] (.singleton name)).symm.trans hdir) hname (ih ?_ ?_)
    · intro rel passes
      simpa using same (name :: rel) (passes.cons hname)
    · intro rel target content executable passes hlink hfile
      exact links (name :: rel) target content executable (passes.cons hname)
        (by simpa using hlink) hfile
  | @file p d name content executable hfile hsize =>
    exact .file ((same [name] (.singleton name)).symm.trans hfile) hsize
  | @linked p d name target content executable hlink hfile =>
    exact .linked ((same [name] (.singleton name)).symm.trans hlink)
      (links [name] target content executable (.singleton name) hlink hfile)

/-- A source that does not get to its storage does not get to anything in the rules directory. -/
theorem Apart.not_below {rel : List String} (h : Apart d (storageAt r location)) (hd : ¬r <+: d)
    (passes : Passes rel) : ¬(r <+: d ++ rel ∧ d ++ rel ≠ r) := by
  rintro ⟨⟨more, way⟩, other⟩
  obtain inner | ⟨names, rfl⟩ := List.prefix_or_prefix_of_prefix ⟨more, way⟩ (List.prefix_append d rel)
  · exact hd inner
  obtain rfl : names ++ more = rel := by simpa using way
  have hmore : more ≠ [] := by
    rintro rfl
    exact other (by simp)
  refine h (names ++ [Source.hash location]) (fun name mem => passes name ?_) (by simp [storageAt])
  rw [List.dropLast_concat] at mem
  rw [List.dropLast_append_of_ne_nil hmore]
  exact List.mem_append_left _ mem

/-- Storages of different sources are apart. -/
theorem eq_of_storageAt {location other : String} {m : Location}
    (h : storageAt r location <+: m) (h' : storageAt r other <+: m) :
    Source.hash location = Source.hash other := by
  have same := List.prefix_of_prefix_length_le h h' (by simp [storageAt])
  simpa [storageAt] using same

/-- A storage holds what is kept of its source as long as nothing changes but other storages. -/
theorem Fetched.mirrors {made : FileTree} {inside : List (String × Entry)}
    (h : Fetched layout origin location t u made r inside) (leads : v.Leads layout.rulesDir r)
    (hcwd : v.cwd = u.cwd) (stored : ∀ m, storageAt r location <+: m → v.get? m = u.get? m)
    (outside : ∀ m, ¬(r <+: m ∧ m ≠ r) → u.get? m = v.get? m) (clear : Clear v origin d r) :
    Mirrors v origin d (layout.storage location) (storageAt r location) := by
  have notInside : ¬storageAt r location <+: d := fun below =>
    clear.not_inside (below_of_storageAt below).1
  have other : d ≠ r := fun same => clear.not_inside (same ▸ List.prefix_rfl)
  have leads_u : u.Leads origin d :=
    (emptied_within_of hcwd fun m e hm he => (outside m hm).trans he).leads clear.leads
  have notBelow {rel : List String} (passes : Passes rel) : ¬(r <+: d ++ rel ∧ d ++ rel ≠ r) :=
    (h.apart (h.leads_made leads_u notInside) notInside other).not_below clear.not_inside passes
  have shows {rel : List String} {target : String} (passes : Passes rel)
      (link : v.get? (d ++ rel) = some (.link target)) :=
    clear.links rel target passes link u hcwd outside
  have links : LinksAvoid u origin d (storageAt r location) := by
    intro rel target content executable passes link file
    rw [outside _ (notBelow passes)] at link
    refine (clear.links rel target passes link (u.emptied (storageAt r location)) hcwd
      (fun m hm => ?_) _ _).2 ((shows passes link _ _).1 file)
    rw [get?_emptied_of_not_below fun below => hm (below_of_storageAt below.1), outside m hm]
  refine ⟨leads.join (Source.isName_hash location) h.prepared.size_lt
    ((stored _ List.prefix_rfl).trans h.leads_storage.2), fun rel e => ?_, fun rel e he => ?_⟩
  · rw [stored _ (List.prefix_append _ _), h.get?_iff_keeps leads_u notInside other links]
    constructor
    · intro keeps
      refine keeps.of_agree (fun rel passes => outside _ (notBelow passes)) ?_
      intro rel target content executable passes link file
      rw [outside _ (notBelow passes)] at link
      exact (shows passes link _ _).1 file
    · intro keeps
      refine keeps.of_agree (fun rel passes => (outside _ (notBelow passes)).symm) ?_
      intro rel target content executable passes link file
      exact (shows passes link _ _).2 file
  · rw [stored _ (List.prefix_append _ _)] at he
    exact h.size_lt he

/-- In the end each storage holds what is kept of its source. -/
theorem FetchedAll.mirrors (h : FetchedAll layout base r sources t v)
    (injective : ∀ a ∈ sources, ∀ b ∈ sources, Source.hash a = Source.hash b → a = b)
    (mem : location ∈ sources) (clear : Clear v (Source.resolve base location) d r) :
    Mirrors v (Source.resolve base location) d (layout.storage location)
      (storageAt r location) := by
  induction h with
  | nil => exact absurd mem List.not_mem_nil
  | @cons head rest t u v made inside fetched run ih =>
    by_cases later : location ∈ rest
    · exact ih (fun a ha b hb => injective a (List.mem_cons_of_mem _ ha) b
        (List.mem_cons_of_mem _ hb)) later clear
    obtain rfl : location = head := (List.mem_cons.1 mem).resolve_right later
    -- the sources that follow have other storages
    have same {m : Location} := run.get?_eq (m := m) fetched.grown.wellFormed fetched.leads_rulesDir
    refine fetched.mirrors (run.leads_rulesDir fetched.leads_rulesDir) run.cwd_eq.symm
      (fun m hm => same fun x hx below => later ?_)
      (fun m hm => (same fun x _ below => hm (below_of_storageAt below)).symm) clear
    exact injective x (List.mem_cons_of_mem _ hx) location mem (eq_of_storageAt below hm) ▸ hx

end HouseRules.Fetch
