import HouseRules.Proofs.Path.Components

/-! Paths below a directory that is put in the place of another one, and paths read from a working
directory. -/

namespace HouseRules.Path

variable {p name cwd source target : String}

/-! ### Paths read from a working directory -/

/-- The directory that a path is read from: the root, which may have two slashes, or the working
directory. -/
def startText (cwd p : String) : String :=
  if isAbsolute p then
    if p.toList.take 2 = ['/', '/'] && p.toList.take 3 ≠ ['/', '/', '/'] then "//" else "/"
  else cwd

theorem absolute_eq (cwd p : String) :
    absolute cwd p = if p.toList.getLast? = some '/' then
      join ((components p).foldl join (startText cwd p)) ""
      else (components p).foldl join (startText cwd p) := rfl

/-- A name is joined to a path after a slash. -/
theorem exists_toList_join (h : IsName name) (hp : p ≠ "") :
    ∃ rest, (join p name).toList = p.toList ++ rest ∧ rest ≠ [] ∧
      (p.toList.getLast? = some '/' ↔ rest.head? ≠ some '/') := by
  obtain ⟨c, cs, hname⟩ := List.exists_cons_of_ne_nil h.toList_ne_nil
  have hc : c ≠ '/' := fun same => h.slash_not_mem (by simp [hname, same])
  by_cases hend : p.toList.getLast? = some '/'
  · refine ⟨name.toList, ?_, h.toList_ne_nil, by simp [hend, hname, hc]⟩
    rw [join, h.isAbsolute_eq_false, Bool.false_or, if_neg (by simpa using hp), if_pos hend,
      String.toList_append]
  · refine ⟨'/' :: name.toList, ?_, List.cons_ne_nil _ _, by simp [hend]⟩
    rw [h.join_eq hp hend]
    simp

theorem join_ne_empty (hp : p ≠ "") (rel : String) : join p rel ≠ "" := by
  rw [join]
  split
  · rename_i h
    rintro rfl
    simp [hp, isAbsolute] at h
  · split
    · simpa using fun h => absurd h hp
    · simp

/-- A slash at the end of a path makes no difference to what is joined. -/
theorem join_join_empty (h : IsName name) (hp : p ≠ "") :
    join (join p "") name = join p name := by
  have slash : join p "" = if p.toList.getLast? = some '/' then p else p ++ "/" := by
    rw [join, if_neg (by simp [hp, isAbsolute])]
    simp
  rw [slash]
  split
  · rfl
  · rename_i hend
    rw [h.join_eq hp hend, join, h.isAbsolute_eq_false, Bool.false_or, if_neg (by simp),
      if_pos (by simp)]

theorem startText_ne_empty (hcwd : cwd ≠ "") (p : String) : startText cwd p ≠ "" := by
  rw [startText]
  split
  · split <;> decide
  · exact hcwd

theorem startText_join (h : IsName name) (p : String) :
    startText cwd (join p name) = startText cwd p := by
  by_cases hp : p = ""
  · rw [hp, join, if_pos (by simp), startText, startText, h.isAbsolute_eq_false]
    rfl
  obtain ⟨rest, hjoin, hrest, hends⟩ := exists_toList_join h hp
  obtain ⟨c, rest, rfl⟩ := List.exists_cons_of_ne_nil hrest
  rw [startText, startText, isAbsolute_join h hp, hjoin]
  rcases hcs : p.toList with _ | ⟨a, _ | ⟨b, _ | ⟨d, more⟩⟩⟩
  · exact absurd (String.toList_eq_nil_iff.1 hcs) hp
  · simp_all
  · simp_all
  · simp

theorem foldl_join_ne_empty (hp : p ≠ "") (names : List String) : names.foldl join p ≠ "" := by
  induction names generalizing p with
  | nil => exact hp
  | cons name names ih => exact ih (join_ne_empty hp name)

/-- A path that is joined from a directory is read as one that is joined from what is read. -/
theorem absolute_join (h : IsName name) (hcwd : cwd ≠ "") (p : String) :
    absolute cwd (join p name) = join (absolute cwd p) name := by
  rw [absolute_eq, absolute_eq, if_neg (h.getLast?_join p), components_join h, startText_join h p,
    List.foldl_append]
  split
  · exact (join_join_empty h (foldl_join_ne_empty (startText_ne_empty hcwd p) _)).symm
  · rfl

theorem isAbsolute_join_of_isAbsolute (hp : isAbsolute p = true) (rel : String) :
    isAbsolute (join p rel) = true := by
  have start (rest : String) : isAbsolute (p ++ rest) = true := by
    simp only [isAbsolute, decide_eq_true_eq] at hp ⊢
    rw [String.toList_append, List.head?_append, hp, Option.some_or]
  have hne : p ≠ "" := by
    rintro rfl
    cases hp
  rw [join]
  split
  · rename_i h
    simpa [hne] using h
  · split
    · exact start rel
    · rw [String.append_assoc]
      exact start ("/" ++ rel)

theorem isAbsolute_foldl_join (hp : isAbsolute p = true) (names : List String) :
    isAbsolute (names.foldl join p) = true := by
  induction names generalizing p with
  | nil => exact hp
  | cons name names ih => exact ih (isAbsolute_join_of_isAbsolute hp name)

theorem isAbsolute_absolute (hcwd : isAbsolute cwd = true) (p : String) :
    isAbsolute (absolute cwd p) = true := by
  have start : isAbsolute (startText cwd p) = true := by
    rw [startText]
    split
    · split <;> decide
    · exact hcwd
  rw [absolute_eq]
  split
  · exact isAbsolute_join_of_isAbsolute (isAbsolute_foldl_join start _) ""
  · exact isAbsolute_foldl_join start _

/-! ### Directories in the place of others -/

/-- The path with one directory at its start in the place of another one. -/
def moved (source target p : String) : String :=
  ((components p).drop (components source).length).foldl join target

theorem moved_join_join {directory file : String} (hdir : IsName directory) (hfile : IsName file) :
    moved source target (join (join source directory) file) =
      join (join target directory) file := by
  rw [moved, components_join hfile, components_join hdir, List.append_assoc, List.drop_left]
  rfl

end HouseRules.Path
