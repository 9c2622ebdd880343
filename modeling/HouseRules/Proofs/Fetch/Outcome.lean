import HouseRules.Proofs.Fetch.Mirror
import HouseRules.Proofs.Fetch.Preparation

/-! What fetching a source leaves: in its storage exactly what is kept of the source, elsewhere
what was there, but for directories above the storage. Fetching again changes nothing. -/

namespace HouseRules

open FileTree

-- only that digests are names matters, never what they are
attribute [local irreducible] Source.hash

namespace Fetch

open Layout

variable {layout : Layout} {base location p : String} {t u made : FileTree} {r d : Location}
  {inside : List (String × Entry)}

/-! ### The run of a fetch -/

/-- A fetch that went through: the storage was prepared, and then what was listed in the source
was copied to it. -/
structure Fetched (layout : Layout) (origin location : String) (t u made : FileTree) (r : Location)
    (inside : List (String × Entry)) : Prop where
  prepared : Prepared layout location t made r
  listed : made.listing? origin = some inside
  copies : Copies (roomBelow (layout.storage location)) made origin (layout.storage location)
    (storageAt r location) inside u

theorem Prepared.room (h : Prepared layout location t made r) :
    (layout.storage location).utf8ByteSize + roomBelow (layout.storage location) < pathLimit := by
  have := h.size_lt
  rw [roomBelow]
  omega

theorem Prepared.ready (h : Prepared layout location t made r) {origin : String}
    (listed : made.listing? origin = some inside) :
    Ready made (layout.storage location) (storageAt r location) inside where
  wellFormed := h.wellFormed
  leads := h.leads
  isName := (listing?_names h.wellFormed listed).1
  nodup := (listing?_names h.wellFormed listed).2
  free x _ := h.empty [x.1] (List.cons_ne_nil _ _)

/-- What succeeds is the run that the steps describe, if what is cleared and made is a prepared
storage. -/
theorem exists_fetched
    (prepares : ∀ {cleared made}, clear? t (layout.storage location) = some cleared →
      cleared.ensureDirectory (layout.storage location) = some made →
      ∃ r, Prepared layout location t made r)
    (h : fetch layout base location t = (.ok p, u)) :
    p = layout.storage location ∧ Source.isRemote location = false ∧
      t.isDirectory (Source.resolve base location) = true ∧
      ∃ made r inside, Fetched layout (Source.resolve base location) location t u made r inside := by
  rw [fetch] at h
  split at h
  · cases h
  rename_i isLocal
  split at h
  · cases h
  rename_i stands
  split at h
  · cases h
  rename_i cleared hclear
  rw [copyDirectory] at h
  rcases hmade : cleared.ensureDirectory (layout.storage location) with _ | made
  · rw [hmade] at h
    cases h
  rcases hlisted : made.listing? (Source.resolve base location) with _ | inside
  · simp only [hmade, hlisted] at h
    cases h
  simp only [hmade, hlisted] at h
  split at h
  · rename_i u' complete
    cases h
    obtain ⟨r, prepared⟩ := prepares hclear hmade
    exact ⟨rfl, by simpa using isLocal, by simpa using stands, made, r, inside, prepared, hlisted,
      copies_of_copyListed complete (prepared.ready hlisted) prepared.room⟩
  · cases h

theorem fetch_of_copied {cleared : FileTree} (isLocal : Source.isRemote location = false)
    (stands : t.isDirectory (Source.resolve base location) = true)
    (hclear : clear? t (layout.storage location) = some cleared)
    (copied : copyDirectory cleared (Source.resolve base location) (layout.storage location) =
      ⟨u, none⟩) : fetch layout base location t = (.ok (layout.storage location), u) := by
  rw [fetch]
  simp only [isLocal, stands, hclear, copied]
  rfl

/-- A run that the steps describe succeeds. -/
theorem fetch_eq_ok {cleared : FileTree} (isLocal : Source.isRemote location = false)
    (stands : t.isDirectory (Source.resolve base location) = true)
    (hclear : clear? t (layout.storage location) = some cleared)
    (hmade : cleared.ensureDirectory (layout.storage location) = some made)
    (h : Fetched layout (Source.resolve base location) location t u made r inside) :
    fetch layout base location t = (.ok (layout.storage location), u) := by
  refine fetch_of_copied isLocal stands hclear ?_
  simp only [copyDirectory, hmade, h.listed,
    copyListed_eq_of_copies h.copies (h.prepared.ready h.listed) h.prepared.room]

namespace Fetched

variable {origin : String}

theorem ready (h : Fetched layout origin location t u made r inside) :
    Ready made (layout.storage location) (storageAt r location) inside :=
  h.prepared.ready h.listed

theorem grown (h : Fetched layout origin location t u made r inside) :
    Grown made u (storageAt r location) (inside.map Prod.fst) :=
  h.copies.grown h.ready h.prepared.room

theorem get?_eq_made (h : Fetched layout origin location t u made r inside) {m : Location}
    (hm : ¬storageAt r location <+: m) : u.get? m = made.get? m :=
  h.grown.get?_eq m fun _ _ below => hm ((List.prefix_append _ _).trans below)

/-- Outside the storage there is what was there, and new directories above it. -/
theorem frame (h : Fetched layout origin location t u made r inside) {m : Location}
    (hm : ¬storageAt r location <+: m) : u.get? m = t.get? m ∨
      t.get? m = none ∧ u.get? m = some .directory ∧ m <+: storageAt r location := by
  rw [h.get?_eq_made hm]
  exact h.prepared.frame m hm

theorem leads_storage (h : Fetched layout origin location t u made r inside) :
    u.Leads (layout.storage location) (storageAt r location) :=
  h.grown.within.leads h.prepared.leads

/-- The rules directory is found without the storage. -/
theorem found (h : Fetched layout origin location t u made r inside) :
    (u.erase (storageAt r location)).Leads layout.rulesDir r :=
  (h.grown.within.erase _).leads h.prepared.found

theorem leads_rulesDir (h : Fetched layout origin location t u made r inside) :
    u.Leads layout.rulesDir r :=
  (erase_within u _).leads h.found

/-- The rules directory stands where it stood. -/
theorem eq_of_leads (h : Fetched layout origin location t u made r inside) {l : Location}
    (leads : t.Leads layout.rulesDir l) : r = l := by
  obtain there | ⟨missing, -⟩ := h.prepared.before
  · exact there.unique leads
  · cases (exists?_of_isDirectory (isDirectory_iff_leads.2 ⟨l, leads⟩)).symm.trans missing

/-- The rules directory still keeps its place. -/
theorem rooted (h : Fetched layout origin location t u made r inside) (rooted : layout.Rooted t) :
    layout.Rooted u where
  kept r' leads := by
    obtain rfl := h.leads_rulesDir.unique leads
    obtain there | ⟨-, fresh⟩ := h.prepared.before
    · refine (emptied_within_of (h.prepared.cwd_eq.trans h.grown.within.cwd_eq) fun m e hm he => ?_ :
        (t.emptied r).Within (u.emptied r)).leads (rooted.kept r there)
      rw [get?_emptied_of_not_below hm]
      obtain same | ⟨new, -⟩ := h.frame fun below => hm (below_of_storageAt below)
      · rw [same, he]
      · cases he.symm.trans new
    · refine (erase_within_of h.grown.within.cwd_eq fun m e notBelow he => ?_ :
        (made.erase (storageAt r location)).Within (u.emptied r)).leads h.prepared.found
      rw [get?_emptied_of_not_below]
      · exact h.grown.within.get?_eq he
      · rintro ⟨⟨rel, rfl⟩, hne⟩
        rw [fresh rel (by simpa using hne) notBelow] at he
        cases he
  down missing := by
    have stands := exists?_of_isDirectory (isDirectory_iff_leads.2 ⟨r, h.leads_rulesDir⟩)
    cases stands.symm.trans missing

/-! ### The source -/

/-- Where the source is found while it is copied. -/
theorem exists_locate (h : Fetched layout origin location t u made r inside) :
    ∃ n e, made.locate true origin = some n ∧ made.get? n = some e := by
  have listed := h.listed
  rw [FileTree.listing?] at listed
  split at listed
  · cases listed
  rename_i n found
  rcases stands : made.get? n with _ | e
  · rw [stands] at listed
    cases listed
  · exact ⟨n, e, found, stands⟩

/-- A source outside its storage is still found after the fetch if it was found without the
storage, or if the storage was no link. -/
theorem leads_origin (h : Fetched layout origin location t u made r inside)
    (leads : t.Leads origin d) (outside : ¬storageAt r location <+: d)
    (way : (∀ target, t.get? (storageAt r location) ≠ some (.link target)) ∨
      (t.erase (storageAt r location)).Leads origin d) : u.Leads origin d := by
  refine h.grown.within.leads ?_
  obtain noLink | without := way
  · obtain ⟨n, e, found, stands⟩ := h.exists_locate
    obtain rfl := (h.prepared.agree noLink).locate_eq leads.1 leads.2 found stands
    exact ⟨found, h.prepared.get?_eq outside leads.2⟩
  · exact h.prepared.erase_within.leads without

/-- A source that is a directory in the end was that while it was copied. -/
theorem leads_made (h : Fetched layout origin location t u made r inside)
    (leads : u.Leads origin d) (outside : ¬storageAt r location <+: d) : made.Leads origin d := by
  obtain ⟨n, e, found, stands⟩ := h.exists_locate
  obtain rfl := Option.some.inj (leads.1.symm.trans (h.grown.within.locate_eq found stands))
  exact ⟨found, (h.get?_eq_made outside).symm.trans leads.2⟩

/-! ### Ways into the storage -/

theorem hash_not_mem_skippedNames (location : String) : Source.hash location ∉ skippedNames := by
  intro mem
  have short : ∀ name ∈ skippedNames, name.toList.length < 64 := by decide
  exact absurd (Source.length_hash location) (short _ mem).ne

/-- No name is left out on a way from a directory outside a storage into that. -/
theorem exists_kept_way {rel : List String} (outside : ¬storageAt r location <+: d)
    (passes : Passes rel) (below : storageAt r location <+: d ++ rel) :
    ∃ before, storageAt r location = d ++ (before ++ [Source.hash location]) ∧
      ∀ name ∈ before ++ [Source.hash location], name ∉ skippedNames := by
  obtain inner | ⟨names, way⟩ := List.prefix_or_prefix_of_prefix below (List.prefix_append d rel)
  · exact absurd inner outside
  have onTheWay : names <+: rel := by
    rwa [← way, List.prefix_append_right_inj] at below
  have wholeWay : d ++ names = r ++ [Source.hash location] := way
  obtain rfl | ⟨before, last, rfl⟩ := List.eq_nil_or_concat' names
  · rw [List.append_nil] at way
    exact absurd (way ▸ List.prefix_rfl) outside
  rw [← List.append_assoc] at wholeWay
  obtain ⟨-, hash⟩ := List.append_inj' wholeWay rfl
  obtain rfl := List.singleton_inj.1 hash
  refine ⟨before, way.symm, fun name mem => ?_⟩
  obtain mem | mem := List.mem_append.1 mem
  · refine passes name (List.IsPrefix.subset ?_ mem)
    obtain ⟨more, rfl⟩ := onTheWay
    rw [List.append_assoc, List.dropLast_append_of_ne_nil (List.append_ne_nil_of_left_ne_nil
      (List.cons_ne_nil _ []) more)]
    exact List.prefix_append _ _
  · exact List.mem_singleton.1 mem ▸ hash_not_mem_skippedNames location

/-- A fetched source does not get to its storage, unless it is the rules directory. -/
theorem apart (h : Fetched layout origin location t u made r inside) (leads : made.Leads origin d)
    (outside : ¬storageAt r location <+: d) (other : d ≠ r) : Apart d (storageAt r location) := by
  intro rel passes below
  obtain ⟨before, way, kept⟩ := exists_kept_way outside passes below
  cases before with
  | nil => exact other (by simpa [storageAt] using way.symm)
  | cons first before =>
    obtain ⟨second, more, rest⟩ : ∃ second more, before ++ [Source.hash location] =
        second :: more := by
      cases before <;> simp
    have place : storageAt r location = d ++ first :: second :: more := by
      rw [way, List.cons_append, rest]
    rw [List.cons_append, rest] at kept
    refine not_copies_below h.copies h.ready h.prepared.room leads place kept ?_
    have listed := h.listed
    rw [listing?_of_leads leads] at listed
    cases listed
    have stored := h.prepared.stored
    rw [place, List.append_cons] at stored
    exact h.prepared.wellFormed.mem_listing.2
      (h.prepared.wellFormed.get?_of_append (List.cons_ne_nil _ _) stored)

/-! ### The storage -/

/-- The storage holds what is kept of the source, if no link leads through it. -/
theorem get?_iff_keeps (h : Fetched layout origin location t u made r inside)
    (leads : u.Leads origin d) (outside : ¬storageAt r location <+: d) (other : d ≠ r)
    (links : LinksAvoid u origin d (storageAt r location)) (rel : List String) (e : Entry) :
    u.get? (storageAt r location ++ rel) = some e ↔ Keeps u origin d rel e := by
  have leads' := h.leads_made leads outside
  have sees : Sees u made origin d (storageAt r location) :=
    ⟨leads', h.prepared.stored, fun m hm => (h.get?_eq_made hm).symm,
      h.apart leads' outside other, links⟩
  have listed := h.listed
  rw [listing?_of_leads leads'] at listed
  cases listed
  cases rel with
  | nil =>
    rw [List.append_nil, h.leads_storage.2]
    constructor
    · intro same
      cases same
      exact .here leads.2
    · intro keeps
      cases keeps
      rfl
  | cons name rel =>
    refine get?_iff_of_listed h.prepared.wellFormed sees h.ready
      (fun name => h.prepared.empty [name] (List.cons_ne_nil _ _)) h.grown ?_ name rel e
    refine h.copies.get?_iff h.ready h.prepared.room sees List.prefix_rfl (Within.refl u)
      fun x mem => ?_
    rw [← sees.get?_concat_eq]
    exact h.prepared.wellFormed.mem_listing.1 mem

/-- What the storage holds has paths that are short enough. -/
theorem size_lt (h : Fetched layout origin location t u made r inside) {rel : List String}
    {e : Entry} (he : u.get? (storageAt r location ++ rel) = some e) :
    (rel.foldl Path.join (layout.storage location)).utf8ByteSize < pathLimit := by
  by_cases hrel : rel = []
  · subst hrel
    exact h.prepared.size_lt
  · exact h.copies.size_lt h.ready h.prepared.room (h.prepared.empty rel hrel) he

/-! ### Fetching again -/

/-- Clearing the storage and making it anew gives the tree in which it was made. -/
theorem exists_cleared (h : Fetched layout origin location t u made r inside) :
    ∃ made', clear? u (layout.storage location) = some (u.erase (storageAt r location)) ∧
      (u.erase (storageAt r location)).ensureDirectory (layout.storage location) = some made' ∧
      Prepared layout location u made' r ∧ made.Same made' := by
  have hname := Source.isName_hash location
  have hclear := clear?_of_stored h.leads_rulesDir h.prepared.size_lt h.leads_storage.2
  have hmade := (ensureDirectory_join h.found hname
    (get?_erase_self u (storageAt_ne_nil r location))).2 ⟨h.prepared.size_lt, rfl⟩
  have prepared' := prepared_of_leads h.grown.wellFormed h.leads_rulesDir h.found hclear hmade
  refine ⟨_, hclear, hmade, prepared', h.grown.within.cwd_eq, fun m => ?_⟩
  by_cases hm : storageAt r location <+: m
  · obtain ⟨rel, rfl⟩ := hm
    by_cases hrel : rel = []
    · rw [hrel, List.append_nil, h.prepared.stored, prepared'.stored]
    · rw [h.prepared.empty rel hrel, prepared'.empty rel hrel]
  · rw [get?_set_of_ne, get?_erase_of_not_below hm, h.get?_eq_made hm]
    rintro rfl
    exact hm List.prefix_rfl

/-- Fetching a source again changes nothing, if it is still found. -/
theorem again (h : Fetched layout (Source.resolve base location) location t u made r inside)
    (isLocal : Source.isRemote location = false)
    (stands : u.isDirectory (Source.resolve base location) = true) :
    ∃ u', fetch layout base location u = (.ok (layout.storage location), u') ∧ u.Same u' := by
  obtain ⟨made', hclear, hmade, prepared', same⟩ := h.exists_cleared
  have listed := (same.listing?_eq h.prepared.wellFormed prepared'.wellFormed _).symm.trans h.listed
  obtain ⟨u', copies, same'⟩ :=
    h.copies.same same prepared'.wellFormed h.ready h.prepared.room
  exact ⟨u', fetch_eq_ok isLocal stands hclear hmade ⟨prepared', listed, copies⟩, same'⟩

end Fetched

end Fetch

end HouseRules
