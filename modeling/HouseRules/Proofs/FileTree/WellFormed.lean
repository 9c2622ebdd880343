import HouseRules.Proofs.FileTree.Names
import HouseRules.Proofs.FileTree.Removal
import Mathlib.Data.List.Induction
import Mathlib.Data.List.Nodup
import Mathlib.Data.String.Basic

/-! Well-formed file trees: every location has one entry, its names are names of entries, and the
location above it is a directory. Then a listing shows exactly what stands directly in a
directory, each name once, in the order of the names. -/

namespace HouseRules.FileTree

/-- A tree as file systems have them. -/
structure WellFormed (t : FileTree) : Prop where
  nodup : (t.entries.map Prod.fst).Nodup
  ne_nil : ∀ x ∈ t.entries, x.1 ≠ []
  isName : ∀ x ∈ t.entries, ∀ name ∈ x.1, IsName name
  parent : ∀ x ∈ t.entries, t.get? x.1.dropLast = some .directory

instance (t : FileTree) : Decidable t.WellFormed :=
  decidable_of_iff ((t.entries.map Prod.fst).Nodup ∧ (∀ x ∈ t.entries, x.1 ≠ []) ∧
      (∀ x ∈ t.entries, ∀ name ∈ x.1, IsName name) ∧
      ∀ x ∈ t.entries, t.get? x.1.dropLast = some .directory)
    ⟨fun ⟨h1, h2, h3, h4⟩ => ⟨h1, h2, h3, h4⟩, fun ⟨h1, h2, h3, h4⟩ => ⟨h1, h2, h3, h4⟩⟩

@[simp] theorem get?_nil (t : FileTree) : t.get? [] = some .directory := rfl

theorem get?_set (t : FileTree) {l : Location} (hl : l ≠ []) (e : Entry) (m : Location) :
    (t.set l e).get? m = if m = l then some e else t.get? m := by
  split
  · rename_i h
    rw [h, get?_set_self t hl]
  · rename_i h
    exact get?_set_of_ne t h e

theorem get?_empty {l : Location} (hl : l ≠ []) : empty.get? l = none := by
  simp [get?, empty, hl]

theorem wellFormed_empty : empty.WellFormed :=
  ⟨List.nodup_nil, fun _ h => absurd h List.not_mem_nil, fun _ h => absurd h List.not_mem_nil,
    fun _ h => absurd h List.not_mem_nil⟩

/-- Entries are found where they stand. -/
theorem mem_entries_of_get? {t : FileTree} {l : Location} {e : Entry} (hl : l ≠ [])
    (h : t.get? l = some e) : (l, e) ∈ t.entries := by
  rw [get?, if_neg (by simpa using hl), Option.map_eq_some_iff] at h
  obtain ⟨x, hx, rfl⟩ := h
  have hxl : x.1 = l := by simpa using List.find?_some hx
  rw [← hxl]
  exact List.mem_of_find?_eq_some hx

namespace WellFormed

variable {t : FileTree} {l m : Location} {name : String} {e : Entry}

theorem get?_of_mem (wf : t.WellFormed) (h : (l, e) ∈ t.entries) : t.get? l = some e := by
  rw [get?, if_neg (by simpa using wf.ne_nil _ h)]
  obtain ⟨x, hx⟩ : ∃ x, t.entries.find? (fun x => x.1 = l) = some x :=
    Option.isSome_iff_exists.1 (List.find?_isSome.2 ⟨(l, e), h, by simp⟩)
  have hxl : x.1 = l := by simpa using List.find?_some hx
  have same : x = (l, e) :=
    List.inj_on_of_nodup_map wf.nodup (List.mem_of_find?_eq_some hx) h hxl
  rw [hx, same]
  rfl

theorem isName_of_get? (wf : t.WellFormed) (h : t.get? l = some e) (hname : name ∈ l) :
    IsName name := by
  have hl : l ≠ [] := by
    rintro rfl
    exact absurd hname List.not_mem_nil
  exact wf.isName _ (mem_entries_of_get? hl h) name hname

/-- What stands anywhere stands in a directory. -/
theorem get?_of_concat (wf : t.WellFormed) (h : t.get? (l ++ [name]) = some e) :
    t.get? l = some .directory := by
  have hparent := wf.parent _ (mem_entries_of_get? (by simp) h)
  rwa [List.dropLast_concat] at hparent

/-- Everything above what stands anywhere is a directory. -/
theorem get?_of_append (wf : t.WellFormed) {rel : Location} (hrel : rel ≠ [])
    (h : t.get? (l ++ rel) = some e) : t.get? l = some .directory := by
  induction rel using List.reverseRecOn generalizing e with
  | nil => exact absurd rfl hrel
  | append_singleton rel name ih =>
    rw [← List.append_assoc] at h
    by_cases hnil : rel = []
    · subst hnil
      exact wf.get?_of_concat (by simpa using h)
    · exact ih hnil (wf.get?_of_concat h)

/-- Everything on the way to a directory is a directory. -/
theorem directory_of_prefix (wf : t.WellFormed) {m : Location}
    (h : t.get? m = some .directory) (above : l <+: m) : t.get? l = some .directory := by
  obtain ⟨rel, rfl⟩ := above
  by_cases hrel : rel = []
  · simpa [hrel] using h
  · exact wf.get?_of_append hrel h

/-- Nothing stands below what is no directory. -/
theorem get?_append_eq_none (wf : t.WellFormed) {rel : Location} (hrel : rel ≠ [])
    (h : t.get? l ≠ some .directory) : t.get? (l ++ rel) = none := by
  rcases hget : t.get? (l ++ rel) with _ | e
  · rfl
  · exact absurd (wf.get?_of_append hrel hget) h

/-! ### Listings -/

theorem mem_listing (wf : t.WellFormed) :
    (name, e) ∈ t.listing l ↔ t.get? (l ++ [name]) = some e := by
  rw [listing, List.mem_mergeSort, List.mem_filterMap]
  constructor
  · rintro ⟨⟨p, e'⟩, hmem, hshown⟩
    rcases hlast : p.getLast? with _ | name'
    · simp [hlast] at hshown
    · by_cases hp : p.dropLast = l
      · obtain ⟨rfl, rfl⟩ : name' = name ∧ e' = e := by simpa [hlast, hp] using hshown
        rw [← hp, List.dropLast_append_getLast? name' hlast]
        exact wf.get?_of_mem hmem
      · simp [hlast, hp] at hshown
  · intro h
    exact ⟨(l ++ [name], e), mem_entries_of_get? (by simp) h, by simp⟩

/-- What a listing shows of an entry in the directory. -/
theorem eq_of_mem_shown {p : Location} {f : Entry}
    (h : (name, f) ∈ (match p.getLast? with
      | some name => if p.dropLast = l then some (name, e) else none
      | none => none)) : p = l ++ [name] ∧ e = f := by
  rcases hlast : p.getLast? with _ | last
  · simp [hlast] at h
  · by_cases hl : p.dropLast = l
    · obtain ⟨rfl, rfl⟩ : last = name ∧ e = f := by simpa [hlast, hl] using h
      exact ⟨by rw [← hl, List.dropLast_append_getLast? last hlast], rfl⟩
    · simp [hlast, hl] at h

theorem nodup_listing (wf : t.WellFormed) (l : Location) : (t.listing l).Nodup := by
  rw [listing, (List.mergeSort_perm _ _).nodup_iff]
  refine List.Nodup.filterMap ?_ (List.Nodup.of_map Prod.fst wf.nodup)
  rintro ⟨p, e⟩ ⟨p', e'⟩ ⟨name, f⟩ hp hp'
  obtain ⟨rfl, rfl⟩ := eq_of_mem_shown hp
  obtain ⟨rfl, rfl⟩ := eq_of_mem_shown hp'
  rfl

/-- A listing is in the order of the names, and no name comes twice. -/
theorem pairwise_listing (wf : t.WellFormed) (l : Location) :
    (t.listing l).Pairwise fun a b => a.1 < b.1 := by
  have sorted : (t.listing l).Pairwise fun a b => a.1 ≤ b.1 := by
    rw [listing]
    refine (List.pairwise_mergeSort ?_ ?_ _).imp of_decide_eq_true
    · intro a b c hab hbc
      exact decide_eq_true (le_trans (of_decide_eq_true hab) (of_decide_eq_true hbc))
    · intro a b
      simpa using le_total a.1 b.1
  refine (sorted.and (wf.nodup_listing l)).imp_of_mem ?_
  rintro ⟨a, e⟩ ⟨b, f⟩ ha hb ⟨hle, hne⟩
  refine lt_of_le_of_ne hle ?_
  rintro rfl
  have same : some e = some f := (wf.mem_listing.1 ha).symm.trans (wf.mem_listing.1 hb)
  exact hne (by rw [Option.some.inj same])

/-- A list in the order of the names is the listing if it has the entries of the directory. -/
theorem listing_eq (wf : t.WellFormed) {xs : List (String × Entry)}
    (sorted : xs.Pairwise fun a b => a.1 < b.1)
    (h : ∀ x : String × Entry, x ∈ xs ↔ t.get? (l ++ [x.1]) = some x.2) : t.listing l = xs := by
  have nodup : xs.Nodup :=
    sorted.imp fun hlt heq => absurd (heq ▸ hlt) (lt_irrefl _)
  have perm : (t.listing l).Perm xs := by
    refine (List.perm_ext_iff_of_nodup (wf.nodup_listing l) nodup).2 fun x => ?_
    rw [h, ← wf.mem_listing]
  refine perm.eq_of_pairwise ?_ (wf.pairwise_listing l) sorted
  intro a b _ _ hab hba
  exact absurd hba (lt_asymm hab)

theorem listing_eq_singleton (wf : t.WellFormed)
    (h : ∀ other, t.get? (l ++ [other]) = if other = name then some e else none) :
    t.listing l = [(name, e)] := by
  refine wf.listing_eq (List.pairwise_singleton _ _) ?_
  rintro ⟨other, e'⟩
  rw [h, List.mem_singleton, Prod.mk.injEq]
  split <;> simp_all [eq_comm]

/-- Two trees with the same entries in a directory have the same listing of it. -/
theorem listing_congr {u : FileTree} (wf : t.WellFormed) (wfu : u.WellFormed)
    (h : ∀ name, t.get? (l ++ [name]) = u.get? (m ++ [name])) : t.listing l = u.listing m :=
  wf.listing_eq (wfu.pairwise_listing m) fun _ => by rw [h, wfu.mem_listing]

/-! ### Changes -/

theorem set (wf : t.WellFormed) (hname : IsName name) (hl : t.get? l = some .directory)
    (hfree : t.get? (l ++ [name]) ≠ some .directory) (e : Entry) :
    (t.set (l ++ [name]) e).WellFormed where
  nodup := by
    rw [FileTree.set, List.map_cons, List.nodup_cons]
    refine ⟨?_, wf.nodup.sublist (List.filter_sublist.map _)⟩
    simp
  ne_nil x hx := by
    obtain rfl | hx := List.mem_cons.1 hx
    · simp
    · exact wf.ne_nil x (List.mem_of_mem_filter hx)
  isName x hx := by
    obtain rfl | hx := List.mem_cons.1 hx
    · intro other hother
      obtain hother | hother := List.mem_append.1 hother
      · exact wf.isName_of_get? hl hother
      · rwa [List.mem_singleton.1 hother]
    · exact wf.isName x (List.mem_of_mem_filter hx)
  parent x hx := by
    obtain rfl | hx := List.mem_cons.1 hx
    · rw [get?_set t (by simp), List.dropLast_concat, if_neg (by simp), hl]
    · have hparent := wf.parent x (List.mem_of_mem_filter hx)
      rw [get?_set t (by simp), if_neg, hparent]
      intro h
      exact hfree (h ▸ hparent)

theorem erase (wf : t.WellFormed) (l : Location) : (t.erase l).WellFormed where
  nodup := wf.nodup.sublist (List.filter_sublist.map _)
  ne_nil x hx := wf.ne_nil x (List.mem_of_mem_filter hx)
  isName x hx := wf.isName x (List.mem_of_mem_filter hx)
  parent x hx := by
    obtain ⟨hx, hkept⟩ := List.mem_filter.1 hx
    have hparent := wf.parent x hx
    by_cases hnil : x.1.dropLast = []
    · rw [hnil]
      rfl
    · rw [get?_erase t l hnil, if_neg, hparent]
      intro h
      have : l <+: x.1 := h.trans (List.dropLast_prefix x.1)
      simp [List.isPrefixOf_iff_prefix.2 this] at hkept

end WellFormed

end HouseRules.FileTree
