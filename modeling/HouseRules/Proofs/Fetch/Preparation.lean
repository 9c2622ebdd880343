import HouseRules.Proofs.Cache.Storage
import HouseRules.Proofs.Fetch.Copying

/-! The storage of a source before anything is copied to it: a new directory in the rules
directory, with nothing in it, whatever was there. That needs the path of the rules directory to
mean the same before and after. -/

namespace HouseRules

open FileTree

-- only that digests are names matters, never what they are
attribute [local irreducible] Source.hash

namespace Layout

/-- Where a source is stored. -/
def storageAt (r : Location) (location : String) : Location := r ++ [Source.hash location]

/-- The rules directory keeps its place when the storage of a source is removed and made anew: it
is found without that storage, or it is not there and its path only goes down from what is. -/
structure Steady (l : Layout) (t : FileTree) (location : String) : Prop where
  kept : ∀ r, t.Leads l.rulesDir r → (t.erase (storageAt r location)).Leads l.rulesDir r
  down : t.exists? l.rulesDir = false → t.GoesDown l.rulesDir

/-- The rules directory keeps its place when any storages are removed and made anew. -/
structure Rooted (l : Layout) (t : FileTree) : Prop where
  kept : ∀ r, t.Leads l.rulesDir r → (t.emptied r).Leads l.rulesDir r
  down : t.exists? l.rulesDir = false → t.GoesDown l.rulesDir

variable {r : Location} {location : String}

theorem rulesDir_ne_empty (l : Layout) : l.rulesDir ≠ "" :=
  IsName.join_ne_empty (show IsName "rules" by decide) l.root

theorem storageAt_ne_nil (r : Location) (location : String) : storageAt r location ≠ [] := by
  simp [storageAt]

theorem below_of_storageAt {m : Location} (h : storageAt r location <+: m) : r <+: m ∧ m ≠ r := by
  refine ⟨(List.prefix_append r _).trans h, ?_⟩
  rintro rfl
  simpa [storageAt] using h.length_le

theorem emptied_within_erase (t : FileTree) (r : Location) (location : String) :
    (t.emptied r).Within (t.erase (storageAt r location)) := by
  refine emptied_within_of rfl fun m e hm hget => ?_
  rw [get?_erase_of_not_below fun below => hm (below_of_storageAt below), hget]

theorem Rooted.steady {l : Layout} {t : FileTree} (h : l.Rooted t) (location : String) :
    l.Steady t location :=
  ⟨fun r leads => (emptied_within_erase t r location).leads (h.kept r leads), h.down⟩

end Layout

namespace Fetch

open Layout

/-- What an empty storage looks like in a tree that is else as it was, but for missing directories
above the storage. -/
structure Prepared (layout : Layout) (location : String) (t made : FileTree) (r : Location) :
    Prop where
  wellFormed : made.WellFormed
  cwd_eq : t.cwd = made.cwd
  found : (made.erase (storageAt r location)).Leads layout.rulesDir r
  size_lt : (layout.storage location).utf8ByteSize < pathLimit
  stored : made.get? (storageAt r location) = some .directory
  empty : ∀ rel, rel ≠ [] → made.get? (storageAt r location ++ rel) = none
  frame : ∀ m, ¬storageAt r location <+: m → made.get? m = t.get? m ∨
    t.get? m = none ∧ made.get? m = some .directory ∧ m <+: storageAt r location
  before : t.Leads layout.rulesDir r ∨ t.exists? layout.rulesDir = false ∧
    ∀ rel, rel ≠ [] → ¬storageAt r location <+: r ++ rel → made.get? (r ++ rel) = none
  replaced : t.get? (storageAt r location) = none ∨
    t.get? (storageAt r location) = some .directory ∨
    ∃ target, t.get? (storageAt r location) = some (.link target)

variable {layout : Layout} {location : String} {t cleared made : FileTree} {r : Location}

theorem Prepared.leads_rulesDir (h : Prepared layout location t made r) :
    made.Leads layout.rulesDir r :=
  (erase_within made _).leads h.found

theorem Prepared.leads (h : Prepared layout location t made r) :
    made.Leads (layout.storage location) (storageAt r location) :=
  h.leads_rulesDir.join (Source.isName_hash location) h.size_lt h.stored

section

variable {m : Location} {e : Entry}

/-- What was there stays, but for the storage. -/
theorem Prepared.get?_eq (h : Prepared layout location t made r)
    (hm : ¬storageAt r location <+: m) (he : t.get? m = some e) : made.get? m = some e := by
  obtain same | ⟨new, -⟩ := h.frame m hm
  · rw [same, he]
  · cases he.symm.trans new

theorem Prepared.erase_within (h : Prepared layout location t made r) :
    (t.erase (storageAt r location)).Within made :=
  erase_within_of h.cwd_eq fun _ _ => h.get?_eq

/-- Unless the storage was a link, nothing is made that differs from what was there. -/
theorem Prepared.agree (h : Prepared layout location t made r)
    (noLink : ∀ target, t.get? (storageAt r location) ≠ some (.link target)) : t.Agree made := by
  refine ⟨h.cwd_eq, fun {m e e'} before after => ?_⟩
  by_cases hm : storageAt r location <+: m
  · obtain ⟨rel, rfl⟩ := hm
    by_cases hrel : rel = []
    · subst hrel
      rw [List.append_nil] at before after
      obtain absent | directory | ⟨target, link⟩ := h.replaced
      · cases before.symm.trans absent
      · cases before.symm.trans directory
        cases h.stored.symm.trans after
        rfl
      · exact absurd link (noLink target)
    · cases (h.empty rel hrel).symm.trans after
  · exact Option.some.inj ((h.get?_eq hm before).symm.trans after)

end

/-- A storage made where it is free. -/
theorem prepared_set {v : FileTree} (wf : v.WellFormed) (hcwd : t.cwd = v.cwd)
    (leads : v.Leads layout.rulesDir r) (hsize : (layout.storage location).utf8ByteSize < pathLimit)
    (hfree : v.get? (storageAt r location) = none)
    (frame : ∀ m, ¬storageAt r location <+: m → v.get? m = t.get? m ∨
      t.get? m = none ∧ v.get? m = some .directory ∧ m <+: storageAt r location)
    (before : t.Leads layout.rulesDir r ∨ t.exists? layout.rulesDir = false ∧
      ∀ rel, rel ≠ [] → v.get? (r ++ rel) = none)
    (replaced : t.get? (storageAt r location) = none ∨
      t.get? (storageAt r location) = some .directory ∨
      ∃ target, t.get? (storageAt r location) = some (.link target)) :
    Prepared layout location t (v.set (storageAt r location) .directory) r where
  wellFormed := wf.set (Source.isName_hash location) leads.2 (by
    rw [show r ++ [Source.hash location] = storageAt r location from rfl, hfree]
    simp) _
  cwd_eq := hcwd
  found := (within_erase_set wf (storageAt_ne_nil r location) hfree _).leads leads
  size_lt := hsize
  stored := get?_set_self v (storageAt_ne_nil r location) _
  empty _ hrel := get?_set_append_of_free wf hfree _ hrel
  frame m hm := by
    rw [get?_set v (storageAt_ne_nil r location), if_neg]
    · exact frame m hm
    · rintro rfl
      exact hm List.prefix_rfl
  before := before.imp_right fun ⟨missing, fresh⟩ => ⟨missing, fun rel hrel hm => by
    rw [get?_set v (storageAt_ne_nil r location), if_neg, fresh rel hrel]
    exact fun same => hm (same ▸ List.prefix_rfl)⟩
  replaced := replaced

/-- What clearing leaves of a storage. -/
theorem clear?_storage (leads : t.Leads layout.rulesDir r)
    (hclear : clear? t (layout.storage location) = some cleared) :
    cleared = t ∧ t.exists? (layout.storage location) = false ∨
      cleared = t.erase (storageAt r location) ∧
        (t.get? (storageAt r location) = some .directory ∨
          ∃ target, t.get? (storageAt r location) = some (.link target)) := by
  rw [clear?] at hclear
  split at hclear
  · rw [removeDirectory?] at hclear
    split at hclear
    · cases hclear
    rename_i m hm
    have hplace : t.locate false (layout.storage location) = some (storageAt r location) :=
      leads.locate_join (Source.isName_hash location) (of_locate hm).2 (by simp)
    obtain rfl : storageAt r location = m := Option.some.inj (hplace.symm.trans hm)
    split at hclear
    · rename_i hdir
      exact .inr ⟨(Option.some.inj hclear).symm, .inl hdir⟩
    · rename_i target hlink
      exact .inr ⟨(Option.some.inj hclear).symm, .inr ⟨target, hlink⟩⟩
    · cases hclear
  · rename_i hmissing
    exact .inl ⟨(Option.some.inj hclear).symm, by simpa using hmissing⟩

/-- A storage that is a directory is cleared. -/
theorem clear?_of_stored (leads : t.Leads layout.rulesDir r)
    (hsize : (layout.storage location).utf8ByteSize < pathLimit)
    (stored : t.get? (storageAt r location) = some .directory) :
    clear? t (layout.storage location) = some (t.erase (storageAt r location)) := by
  have hname := Source.isName_hash location
  have leads' : t.Leads (layout.storage location) (storageAt r location) :=
    leads.join hname hsize stored
  have place : t.locate false (layout.storage location) = some (storageAt r location) :=
    leads.locate_join hname hsize (by simp)
  rw [clear?, if_pos (exists?_of_isDirectory (isDirectory_iff_leads.2 ⟨_, leads'⟩)),
    removeDirectory?, place]
  simp only [stored]

/-- A storage in an existing rules directory is replaced by an empty one. -/
theorem prepared_of_leads (wf : t.WellFormed) (leads : t.Leads layout.rulesDir r)
    (kept : (t.erase (storageAt r location)).Leads layout.rulesDir r)
    (hclear : clear? t (layout.storage location) = some cleared)
    (hmade : cleared.ensureDirectory (layout.storage location) = some made) :
    Prepared layout location t made r := by
  have hname := Source.isName_hash location
  obtain ⟨rfl, hmissing⟩ | ⟨rfl, hreplaced⟩ := clear?_storage leads hclear
  · obtain ⟨hdir, -⟩ | hmade := ensureDirectory_join_cases leads hname hmade
    · cases (exists?_of_isDirectory hdir).symm.trans hmissing
    · obtain ⟨hsize, hfree, rfl⟩ := of_makeDirectory?_join leads hname hmade
      exact prepared_set wf rfl leads hsize hfree (fun _ _ => .inl rfl) (.inl leads)
        (.inl hfree)
  · have hfree := get?_erase_self t (storageAt_ne_nil r location)
    obtain ⟨hsize, rfl⟩ := (ensureDirectory_join kept hname hfree).1 hmade
    exact prepared_set (wf.erase _) rfl kept hsize hfree
      (fun m hm => .inl (get?_erase_of_not_below hm)) (.inl leads) (.inr hreplaced)

/-- Where the rules directory is none, nothing is cleared. -/
theorem eq_of_clear? (wf : t.WellFormed) (hcwd : t.get? t.cwd = some .directory)
    (none : t.isDirectory layout.rulesDir = false)
    (hclear : clear? t (layout.storage location) = some cleared) : cleared = t := by
  rw [clear?, if_neg] at hclear
  · exact (Option.some.inj hclear).symm
  · intro stands
    rw [isDirectory_of_exists?_join wf hcwd (Source.isName_hash location) layout.rulesDir_ne_empty
      stands] at none
    cases none

/-- A storage in a missing rules directory is made together with that. -/
theorem prepared_of_missing (wf : t.WellFormed) (hcwd : t.get? t.cwd = some .directory)
    (missing : t.exists? layout.rulesDir = false) (down : t.GoesDown layout.rulesDir)
    (hmade : t.ensureDirectory (layout.storage location) = some made) :
    ∃ r, Prepared layout location t made r := by
  have hname := Source.isName_hash location
  obtain ⟨r, v, hleads, hmade', hempty, rfl⟩ :=
    ensureDirectory_join_of_missing wf hcwd hname layout.rulesDir_ne_empty down missing hmade
  have hsize := size_lt_of_makeDirectories (hname.join_ne_empty _) hmade
  have hfree := hempty [Source.hash location] (List.cons_ne_nil _ [])
  refine ⟨r, prepared_set hmade'.wellFormed hmade'.within.cwd_eq hleads hsize hfree
    (fun m _ => ?_) (.inr ⟨missing, hempty⟩) (.inl ?_)⟩
  · rcases hget : t.get? m with _ | e
    · rcases hv : v.get? m with _ | e
      · exact .inl rfl
      · obtain ⟨rfl, hprefix⟩ := hmade'.of_new hv hget
        exact .inr ⟨rfl, rfl, hprefix.trans (List.prefix_append r _)⟩
    · exact .inl (hmade'.within.get?_eq hget)
  · rcases hget : t.get? (storageAt r location) with _ | e
    · rfl
    · cases (hmade'.within.get?_eq hget).symm.trans hfree

/-- The storage is new and empty, wherever the rules directory keeps its place. -/
theorem exists_prepared (wf : t.WellFormed) (hcwd : t.get? t.cwd = some .directory)
    (steady : layout.Steady t location)
    (hclear : clear? t (layout.storage location) = some cleared)
    (hmade : cleared.ensureDirectory (layout.storage location) = some made) :
    ∃ r, Prepared layout location t made r := by
  rcases hdir : t.isDirectory layout.rulesDir
  · obtain rfl := eq_of_clear? wf hcwd hdir hclear
    rcases hstands : cleared.exists? layout.rulesDir
    · exact prepared_of_missing wf hcwd hstands (steady.down hstands) hmade
    · have stands := isDirectory_of_ensureDirectory_join wf hcwd (show IsName "rules" by decide)
        (Source.isName_hash location) hstands hmade
      cases hdir.symm.trans stands
  · obtain ⟨r, leads⟩ := isDirectory_iff_leads.1 hdir
    exact ⟨r, prepared_of_leads wf leads (steady.kept r leads) hclear hmade⟩

end Fetch

end HouseRules
