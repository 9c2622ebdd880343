import HouseRules.Proofs.FileTree.Names

/-! Removing what stands at a path. A directory that a path leads to can be removed, and after
that the path leads to nothing, whatever links it goes through. -/

namespace HouseRules.FileTree

/-! ### Erased locations -/

/-- Erasing leaves what is not at the location or below it. -/
theorem get?_erase (t : FileTree) (l : Location) {m : Location} (hm : m ≠ []) :
    (t.erase l).get? m = if l <+: m then none else t.get? m := by
  have at_m (x : Location × Entry) :
      ((!l.isPrefixOf x.1) && decide (x.1 = m)) = (!l.isPrefixOf m && decide (x.1 = m)) := by
    by_cases hx : x.1 = m
    · rw [hx]
    · simp [hx]
  simp only [get?, erase, List.isEmpty_iff, hm, if_false, List.find?_filter, Bool.decide_and,
    Bool.decide_eq_true, at_m]
  by_cases h : l <+: m
  · rw [if_pos h, List.isPrefixOf_iff_prefix.2 h]
    simp
  · have hb : l.isPrefixOf m = false := by
      rw [← Bool.not_eq_true, List.isPrefixOf_iff_prefix]
      exact h
    rw [if_neg h, hb]
    simp

theorem get?_erase_of_not_below {t : FileTree} {l m : Location} (hm : ¬l <+: m) :
    (t.erase l).get? m = t.get? m := by
  by_cases hnil : m = []
  · subst hnil
    rfl
  · rw [get?_erase t l hnil, if_neg hm]

theorem get?_of_get?_erase {t : FileTree} {l m : Location} {e : Entry}
    (h : (t.erase l).get? m = some e) : t.get? m = some e := by
  by_cases hm : m = []
  · subst hm
    exact h
  · rw [get?_erase t l hm] at h
    split at h
    · cases h
    · exact h

theorem get?_erase_self (t : FileTree) {l : Location} (hl : l ≠ []) :
    (t.erase l).get? l = none := by
  rw [get?_erase t l hl, if_pos List.prefix_rfl]

/-! ### Walks -/

/-- A walk that ends at a directory ends, when the last link is not followed, at a directory or at
a link. -/
theorem exists_walk_of_directory {t : FileTree} {links : Nat} {d m : Location}
    {names : List String} (h : t.walk true links d names = some m)
    (hm : t.get? m = some .directory) :
    ∃ l, t.walk false links d names = some l ∧
      (t.get? l = some .directory ∨ ∃ target, t.get? l = some (.link target)) := by
  fun_induction walk t true links d names with
  | case1 links l =>
    rw [walk]
    cases h
    exact ⟨m, rfl, .inl hm⟩
  | case2 links l rest ih =>
    rw [walk_dot]
    exact ih h
  | case3 links l rest _ ih =>
    rw [walk_parent]
    exact ih h
  | case4 => cases h
  | case5 links l name rest hdot hparent hsize hget ih =>
    rw [walk_cons hdot hparent hsize, hget]
    exact ih h
  | case6 links l name rest hdot hparent hsize content executable hget hrest =>
    cases h
    rw [hget] at hm
    cases hm
  | case7 => cases h
  | case8 links l name rest hdot hparent hsize target hget hrest => simp at hrest
  | case9 => cases h
  | case10 l name rest hdot hparent hsize target hget hrest links ih =>
    rw [walk_cons hdot hparent hsize, hget]
    by_cases last : rest.isEmpty = true
    · exact ⟨l ++ [name], by simp [last], .inr ⟨target, hget⟩⟩
    · obtain ⟨k, hk, hend⟩ := ih h
      exact ⟨k, by simpa [last] using hk, hend⟩
  | case11 links l name rest hdot hparent hsize hget hrest =>
    cases h
    rw [hget] at hm
    cases hm
  | case12 => cases h

/-- The way to an erased location, where no link is followed at its end, no longer leads to
anything. -/
theorem get?_erase_of_walk {t : FileTree} {k : Location} (hk : k ≠ []) {links : Nat}
    {d m : Location} {names : List String} (h : t.walk false links d names = some k)
    (after : (t.erase k).walk true links d names = some m) : (t.erase k).get? m = none := by
  fun_induction walk (t.erase k) true links d names with
  | case1 links l =>
    rw [walk] at h
    cases h
    cases after
    exact get?_erase_self t hk
  | case2 links l rest ih =>
    rw [walk_dot] at h
    exact ih h after
  | case3 links l rest _ ih =>
    rw [walk_parent] at h
    exact ih h after
  | case4 => cases after
  | case5 links l name rest hdot hparent hsize hget ih =>
    rw [walk_cons hdot hparent hsize, get?_of_get?_erase hget] at h
    exact ih h after
  | case6 links l name rest hdot hparent hsize content executable hget hrest =>
    -- the walk would have ended at this file, which is not there any more
    rw [walk_cons hdot hparent hsize, get?_of_get?_erase hget] at h
    have hl : l ++ [name] = k := by simpa [hrest] using h
    rw [hl, get?_erase_self t hk] at hget
    cases hget
  | case7 => cases after
  | case8 links l name rest hdot hparent hsize target hget hrest => simp at hrest
  | case9 => cases after
  | case10 l name rest hdot hparent hsize target hget hrest links ih =>
    rw [walk_cons hdot hparent hsize, get?_of_get?_erase hget] at h
    by_cases last : rest.isEmpty = true
    · have hl : l ++ [name] = k := by simpa [last] using h
      rw [hl, get?_erase_self t hk] at hget
      cases hget
    · exact ih (by simpa [last] using h) after
  | case11 links l name rest hdot hparent hsize hget hrest =>
    cases after
    exact hget
  | case12 => cases after

theorem getLast?_of_cons {x name : String} {rest : List String} (hx : x ≠ name)
    (h : (x :: rest).getLast? = some name) : rest.getLast? = some name := by
  cases rest with
  | nil =>
    rw [List.getLast?_singleton] at h
    exact absurd (Option.some.inj h) hx
  | cons y rest => rwa [List.getLast?_cons_cons] at h

/-- A walk that does not follow a link at its end ends below the root if the last name is not one
of the two that stand for directories. -/
theorem ne_nil_of_walk {t : FileTree} {links : Nat} {d l : Location} {names : List String}
    {name : String} (hdot : name ≠ ".") (hparent : name ≠ "..")
    (hlast : names.getLast? = some name) (h : t.walk false links d names = some l) : l ≠ [] := by
  fun_induction walk t false links d names with
  | case1 => cases hlast
  | case2 links d rest ih => exact ih (getLast?_of_cons hdot.symm hlast) h
  | case3 links d rest _ ih => exact ih (getLast?_of_cons hparent.symm hlast) h
  | case4 => cases h
  | case5 links d x rest _ _ _ _ ih =>
    cases rest with
    | nil =>
      rw [walk] at h
      cases h
      simp
    | cons y rest => exact ih (by rwa [List.getLast?_cons_cons] at hlast) h
  | case6 | case8 | case11 =>
    cases h
    simp
  | case7 => cases h
  | case9 => cases h
  | case10 d x rest _ _ _ target _ hrest links ih =>
    cases rest with
    | nil => simp at hrest
    | cons y rest =>
      refine ih ?_ h
      rw [List.getLast?_cons_cons] at hlast
      rw [List.getLast?_append, hlast]
      rfl
  | case12 => cases h

/-! ### Paths -/

theorem isDirectory_iff {t : FileTree} {p : String} :
    t.isDirectory p = true ↔ ∃ m, t.locate true p = some m ∧ t.get? m = some .directory := by
  rw [← Option.bind_eq_some_iff, isDirectory, find?]
  split
  · rename_i h
    simp [h]
  · rename_i h
    simpa using h

theorem exists?_of_isDirectory {t : FileTree} {p : String} (h : t.isDirectory p = true) :
    t.exists? p = true := by
  obtain ⟨m, hm, hdir⟩ := isDirectory_iff.1 h
  rw [exists?, find?, hm, Option.bind_some, hdir]
  rfl

/-- After a removal a path whose last name is its own leads to nothing. -/
theorem exists?_of_removeDirectory? {t u : FileTree} {p name : String} (hdot : name ≠ ".")
    (hparent : name ≠ "..") (hlast : (pathNames p).getLast? = some name)
    (h : t.removeDirectory? p = some u) : u.exists? p = false := by
  rw [removeDirectory?] at h
  split at h
  · cases h
  rename_i l hl
  have hu : u = t.erase l := by
    split at h <;> cases h <;> rfl
  subst hu
  rw [exists?, find?]
  cases hm : (t.erase l).locate true p with
  | none => rfl
  | some m =>
    rw [locate] at hl hm
    split at hl
    · cases hl
    · rename_i hp
      rw [if_neg hp] at hm
      rw [Option.bind_some, get?_erase_of_walk (ne_nil_of_walk hdot hparent hlast hl) hl hm]
      rfl

/-- A directory that a path leads to can be removed. -/
theorem removeDirectory?_isSome {t : FileTree} {p : String} (h : t.isDirectory p = true) :
    (t.removeDirectory? p).isSome := by
  obtain ⟨m, hm, hdir⟩ := isDirectory_iff.1 h
  rw [locate] at hm
  split at hm
  · cases hm
  · rename_i hp
    obtain ⟨l, hl, hend⟩ := exists_walk_of_directory hm hdir
    rw [removeDirectory?, locate, if_neg hp, hl]
    obtain hd | ⟨target, ht⟩ := hend
    · simp [hd]
    · simp [ht]

end HouseRules.FileTree
