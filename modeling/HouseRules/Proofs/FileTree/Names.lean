import HouseRules.FileTree.Paths

/-! Names that entries of directories have, the names of a path that is joined from parts, and
walks along names. -/

namespace HouseRules

/-! ### Names -/

/-- A name that an entry of a directory can have. -/
structure IsName (name : String) : Prop where
  ne_empty : name ≠ ""
  ne_dot : name ≠ "."
  ne_parent : name ≠ ".."
  slash_not_mem : '/' ∉ name.toList
  size_le : name.utf8ByteSize ≤ FileTree.nameLimit

instance (name : String) : Decidable (IsName name) :=
  decidable_of_iff (name ≠ "" ∧ name ≠ "." ∧ name ≠ ".." ∧ '/' ∉ name.toList ∧
    name.utf8ByteSize ≤ FileTree.nameLimit)
    ⟨fun ⟨h1, h2, h3, h4, h5⟩ => ⟨h1, h2, h3, h4, h5⟩,
      fun ⟨h1, h2, h3, h4, h5⟩ => ⟨h1, h2, h3, h4, h5⟩⟩

namespace IsName

variable {name : String}

theorem toList_ne_nil (h : IsName name) : name.toList ≠ [] := by
  simpa using h.ne_empty

theorem getLast?_append (h : IsName name) (before : List Char) :
    (before ++ name.toList).getLast? ≠ some '/' := by
  rw [List.getLast?_append, List.getLast?_eq_some_getLast h.toList_ne_nil, Option.some_or]
  intro hlast
  exact h.slash_not_mem (Option.some.inj hlast ▸ List.getLast_mem h.toList_ne_nil)

theorem isAbsolute_eq_false (h : IsName name) : Path.isAbsolute name = false := by
  simp only [Path.isAbsolute, decide_eq_false_iff_not]
  exact fun hhead => h.slash_not_mem (List.mem_of_head? hhead)

/-- A joined path ends with its name, after nothing or a slash. -/
theorem exists_join (h : IsName name) (dir : String) :
    ∃ before, Path.join dir name = String.ofList (before ++ name.toList) ∧
      (before = [] ∨ before.getLast? = some '/') := by
  rw [Path.join, h.isAbsolute_eq_false, Bool.false_or]
  split
  · exact ⟨[], by simp, .inl rfl⟩
  split
  · rename_i hend
    exact ⟨dir.toList, by simp, .inr hend⟩
  · exact ⟨dir.toList ++ ['/'], by simp [String.append_assoc], .inr (by simp)⟩

theorem join_eq (h : IsName name) {dir : String} (hdir : dir ≠ "")
    (hend : dir.toList.getLast? ≠ some '/') : Path.join dir name = dir ++ "/" ++ name := by
  rw [Path.join, h.isAbsolute_eq_false, Bool.false_or, if_neg (by simpa using hdir), if_neg hend]

theorem getLast?_join (h : IsName name) (dir : String) :
    (Path.join dir name).toList.getLast? ≠ some '/' := by
  obtain ⟨before, hjoin, -⟩ := h.exists_join dir
  rw [hjoin, String.toList_ofList]
  exact h.getLast?_append before

theorem join_ne_empty (h : IsName name) (dir : String) : Path.join dir name ≠ "" := by
  obtain ⟨before, hjoin, -⟩ := h.exists_join dir
  rw [hjoin]
  intro hempty
  have hnil : before ++ name.toList = [] := by simpa using congrArg String.toList hempty
  exact h.toList_ne_nil (List.append_eq_nil_iff.1 hnil).2

theorem utf8ByteSize_join_le (h : IsName name) (dir : String) :
    (Path.join dir name).utf8ByteSize ≤ dir.utf8ByteSize + (name.utf8ByteSize + 1) := by
  rw [Path.join, h.isAbsolute_eq_false, Bool.false_or]
  split
  · omega
  split
  · rw [String.utf8ByteSize_append]
    omega
  · rw [String.utf8ByteSize_append, String.utf8ByteSize_append]
    simp only [show ("/" : String).utf8ByteSize = 1 from rfl]
    omega

end IsName

namespace FileTree

variable {dir name : String}

/-! ### Names of a path -/

/-- A name after what is empty or ends with a slash comes after the names there. -/
theorem pathNames_append (h : IsName name) {before : List Char}
    (hbefore : before = [] ∨ before.getLast? = some '/') :
    pathNames (String.ofList (before ++ name.toList)) =
      ((Text.pieces '/' before).filter (!·.isEmpty)).map String.ofList ++ [name] := by
  have hcs := h.toList_ne_nil
  rw [pathNames, String.toList_ofList, if_neg (h.getLast?_append before)]
  obtain rfl | hend := hbefore
  · rw [List.nil_append, Text.pieces_of_not_mem h.slash_not_mem]
    simp [hcs, Text.pieces]
  · obtain ⟨dir, rfl⟩ := List.getLast?_eq_some_iff.1 hend
    rw [List.append_assoc, List.singleton_append, Text.pieces_append_cons,
      Text.pieces_append_cons, Text.pieces_of_not_mem h.slash_not_mem]
    simp [hcs, Text.pieces]

/-- The names of a path that is joined from a directory without a slash at its end. -/
theorem pathNames_join (h : IsName name) (hdir : dir ≠ "") (hend : dir.toList.getLast? ≠ some '/') :
    pathNames (Path.join dir name) = pathNames dir ++ [name] := by
  rw [h.join_eq hdir hend, show dir ++ "/" ++ name =
      String.ofList ((dir.toList ++ ['/']) ++ name.toList) by simp [String.append_assoc],
    pathNames_append h (.inr (by simp)), Text.pieces_append_cons, pathNames, if_neg hend]
  simp [Text.pieces]

/-- The last name of a path that is joined from a directory and a name. -/
theorem getLast?_pathNames_join (h : IsName name) (dir : String) :
    (pathNames (Path.join dir name)).getLast? = some name := by
  obtain ⟨before, hjoin, hbefore⟩ := h.exists_join dir
  rw [hjoin, pathNames_append h hbefore, List.getLast?_concat]

/-! ### Walks along names -/

section

variable {t : FileTree} {follow : Bool} {links : Nat} {l : Location} {rest : List String}

/-- A walk that ends where something stands finds something at each name. -/
theorem exists_get?_of_walk_cons {m : Location} {e : Entry} (hdot : name ≠ ".")
    (hparent : name ≠ "..") (hsize : ¬nameLimit < name.utf8ByteSize)
    (h : t.walk follow links l (name :: rest) = some m) (hm : t.get? m = some e) :
    ∃ e', t.get? (l ++ [name]) = some e' := by
  rcases hget : t.get? (l ++ [name]) with _ | e'
  · rw [walk_cons hdot hparent hsize, hget] at h
    obtain ⟨-, rfl⟩ := by simpa using h
    rw [hget] at hm
    cases hm
  · exact ⟨e', rfl⟩

theorem walk_of_directory (h : IsName name) (hget : t.get? (l ++ [name]) = some .directory) :
    t.walk follow links l (name :: rest) = t.walk follow links (l ++ [name]) rest := by
  rw [walk_cons h.ne_dot h.ne_parent (Nat.not_lt.2 h.size_le), hget]

theorem walk_of_missing (h : IsName name) (hget : t.get? (l ++ [name]) = none) :
    t.walk follow links l (name :: rest) = if rest.isEmpty then some (l ++ [name]) else none := by
  rw [walk_cons h.ne_dot h.ne_parent (Nat.not_lt.2 h.size_le), hget]

theorem walk_of_file (h : IsName name) {content : List UInt8} {executable : Bool}
    (hget : t.get? (l ++ [name]) = some (.file content executable)) :
    t.walk follow links l (name :: rest) = if rest.isEmpty then some (l ++ [name]) else none := by
  rw [walk_cons h.ne_dot h.ne_parent (Nat.not_lt.2 h.size_le), hget]

end

/-- What an absolute path leads to. -/
theorem find?_of_walk {t : FileTree} {p : String} {l : Option Location}
    (hsize : p.utf8ByteSize < pathLimit) (absolute : Path.isAbsolute p = true)
    (h : t.walk true linkLimit [] (pathNames p) = l) : t.find? p = l.bind t.get? := by
  have hp : p ≠ "" := by
    rintro rfl
    cases absolute
  rw [find?, locate, if_neg (by simpa [hp] using hsize), if_pos absolute, h]

end FileTree

end HouseRules
