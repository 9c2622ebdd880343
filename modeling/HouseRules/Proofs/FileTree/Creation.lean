import HouseRules.Proofs.FileTree.Within

/-! Making directories and files. A name that is free in a directory can be taken, and nothing else
changes; a directory made together with those above it, by a path without `..`, is new and empty. -/

namespace HouseRules.FileTree

section

variable {t u v : FileTree} {l m : Location} {name p : String} {depth : Nat}

/-! ### Taking a free name -/

theorem within_set (hl : l ≠ []) (hfree : t.get? l = none) (e : Entry) : t.Within (t.set l e) := by
  refine ⟨rfl, fun {m e'} hm => ?_⟩
  rw [get?_set t hl, if_neg, hm]
  rintro rfl
  rw [hfree] at hm
  cases hm

/-- What was put where nothing stood can be taken away again. -/
theorem within_erase_set (wf : t.WellFormed) (hl : l ≠ []) (hfree : t.get? l = none) (e : Entry) :
    t.Within ((t.set l e).erase l) := by
  refine ⟨rfl, fun {m e'} hm => ?_⟩
  have notBelow : ¬l <+: m := by
    rintro ⟨rel, rfl⟩
    by_cases hrel : rel = []
    · rw [hrel, List.append_nil, hfree] at hm
      cases hm
    · rw [wf.get?_append_eq_none hrel (by simp [hfree])] at hm
      cases hm
  rw [get?_erase_of_not_below notBelow]
  exact (within_set hl hfree e).get?_eq hm

/-- A tree in which a directory was made, and directories above it. -/
structure Made (t u : FileTree) (l : Location) : Prop where
  wellFormed : u.WellFormed
  within : t.Within u
  of_new : ∀ {m e}, u.get? m = some e → t.get? m = none → e = .directory ∧ m <+: l

namespace Made

theorem refl (wf : t.WellFormed) (l : Location) : t.Made t l :=
  ⟨wf, Within.refl t, fun hm hnone => by simp [hm] at hnone⟩

theorem set (wf : t.WellFormed) (hname : IsName name) (hl : t.get? l = some .directory)
    (hfree : t.get? (l ++ [name]) = none) :
    t.Made (t.set (l ++ [name]) .directory) (l ++ [name]) where
  wellFormed := wf.set hname hl (by simp [hfree]) _
  within := within_set (by simp) hfree _
  of_new {m e} hm hnone := by
    rw [get?_set t (by simp)] at hm
    split at hm
    · rename_i h
      cases hm
      exact ⟨rfl, h ▸ List.prefix_rfl⟩
    · rw [hnone] at hm
      cases hm

theorem trans (h : t.Made u l) (h' : u.Made v m) (hl : l <+: m) : t.Made v m where
  wellFormed := h'.wellFormed
  within := h.within.trans h'.within
  of_new {k e} hk hnone := by
    rcases hu : u.get? k with _ | e'
    · exact h'.of_new hk hu
    · obtain ⟨rfl, hprefix⟩ := h.of_new hu hnone
      rw [h'.within.get?_eq hu] at hk
      exact ⟨(Option.some.inj hk).symm, hprefix.trans hl⟩

end Made

/-! ### Directories in an existing one -/

theorem makeDirectory?_join (h : t.Leads p l) (hname : IsName name)
    (hfree : t.get? (l ++ [name]) = none) (hsize : (Path.join p name).utf8ByteSize < pathLimit) :
    t.makeDirectory? (Path.join p name) = some (t.set (l ++ [name]) .directory) := by
  rw [makeDirectory?, h.locate_join hname hsize (by simp [hfree])]
  simp [hfree]

theorem of_makeDirectory?_join (h : t.Leads p l) (hname : IsName name)
    (hmade : t.makeDirectory? (Path.join p name) = some u) :
    (Path.join p name).utf8ByteSize < pathLimit ∧ t.get? (l ++ [name]) = none ∧
      u = t.set (l ++ [name]) .directory := by
  rw [makeDirectory?] at hmade
  split at hmade
  · cases hmade
  rename_i m hm
  have hsize := (of_locate hm).2
  rw [h.locate_join hname hsize (by simp)] at hm
  cases hm
  split at hmade
  · cases hmade
  · rename_i hfree
    exact ⟨hsize, by simpa using hfree, (Option.some.inj hmade).symm⟩

theorem isDirectory_join_of_free (h : t.Leads p l) (hname : IsName name)
    (hfree : t.get? (l ++ [name]) = none) : t.isDirectory (Path.join p name) = false := by
  rw [isDirectory, h.find?_join hname (by simp [hfree]), hfree, ite_self]

theorem size_lt_of_makeDirectory? (h : t.makeDirectory? p = some u) :
    p.utf8ByteSize < pathLimit := by
  rw [makeDirectory?] at h
  split at h
  · cases h
  · rename_i l hl
    exact (of_locate hl).2

theorem makeDirectories_empty (h : makeDirectories depth t "" = some u) : u = t := by
  cases depth with
  | zero => cases h
  | succ depth =>
    rw [makeDirectories, if_pos (by rfl)] at h
    exact (Option.some.inj h).symm

/-- A directory stands already, or it is made, or the one above it is made first. -/
theorem makeDirectories_cases (hp : p ≠ "") (h : makeDirectories depth t p = some u) :
    t.isDirectory p = true ∧ u = t ∨ t.makeDirectory? p = some u ∨
      ∃ below q v, depth = below + 1 ∧ Path.parent? p = some q ∧ q ≠ "" ∧ t.exists? q = false ∧
        makeDirectories below t q = some v ∧
        (v.isDirectory p = true ∧ u = v ∨ v.makeDirectory? p = some u) := by
  cases depth with
  | zero => cases h
  | succ depth =>
    rw [makeDirectories] at h
    split at h
    · rename_i hstands
      exact .inl ⟨by simpa [hp] using hstands, (Option.some.inj h).symm⟩
    rename_i hstands
    split at h
    · rename_i v hmade
      exact .inr (.inl (hmade.trans h))
    rename_i hfailed
    split at h
    · cases h
    rename_i q hq
    split at h
    · cases h
    rename_i hmissing
    split at h
    · cases h
    rename_i v hv
    by_cases hempty : q = ""
    · -- nothing was made, so the directory fails as before
      subst hempty
      rw [makeDirectories_empty hv, if_neg fun hdir => hstands (by simp [hdir]), hfailed] at h
      cases h
    · refine .inr (.inr ⟨depth, q, v, rfl, hq, hempty, by simpa using hmissing, hv, ?_⟩)
      split at h
      · rename_i hdir
        exact .inl ⟨hdir, (Option.some.inj h).symm⟩
      · exact .inr h

theorem size_lt_of_isDirectory (h : t.isDirectory p = true) : p.utf8ByteSize < pathLimit := by
  obtain ⟨l, hl⟩ := isDirectory_iff_leads.1 h
  exact (of_locate hl.1).2

theorem size_lt_of_makeDirectories (hp : p ≠ "") (h : makeDirectories depth t p = some u) :
    p.utf8ByteSize < pathLimit := by
  obtain ⟨hdir, -⟩ | hmade | ⟨-, q, v, -, -, -, -, -, ⟨hdir, -⟩ | hmade⟩ :=
    makeDirectories_cases hp h
  · exact size_lt_of_isDirectory hdir
  · exact size_lt_of_makeDirectory? hmade
  · exact size_lt_of_isDirectory hdir
  · exact size_lt_of_makeDirectory? hmade

/-- Where the directory above stands, only the directory itself is made. -/
theorem ensureDirectory_join_cases (h : t.Leads p l) (hname : IsName name)
    (hu : t.ensureDirectory (Path.join p name) = some u) :
    t.isDirectory (Path.join p name) = true ∧ u = t ∨
      t.makeDirectory? (Path.join p name) = some u := by
  obtain hstands | hmade | ⟨depth, q, v, -, hq, hempty, hmissing, hv, -⟩ :=
    makeDirectories_cases (hname.join_ne_empty p) hu
  · exact .inl hstands
  · exact .inr hmade
  · -- the parent would have been found
    obtain ⟨⟨last, hlast⟩, habsolute⟩ := Path.components_of_parent? hq hempty
    obtain ⟨hp, -, hdir, k, hreach⟩ := leads_iff.1 h
    obtain ⟨hcomponents, -⟩ : Path.components p = Path.components q ∧ name = last := by
      simpa [Path.components_join hname] using hlast
    have hleads : t.Leads q l := by
      refine leads_iff.2 ⟨hempty, size_lt_of_makeDirectories hempty hv, hdir, k, ?_⟩
      rwa [← hcomponents, startOf, habsolute, Path.isAbsolute_join hname hp]
    rw [exists?_of_isDirectory (isDirectory_iff_leads.2 ⟨l, hleads⟩)] at hmissing
    cases hmissing

/-- A free name in an existing directory can be taken by a directory, unless the path is too
long. -/
theorem ensureDirectory_join (h : t.Leads p l) (hname : IsName name)
    (hfree : t.get? (l ++ [name]) = none) :
    t.ensureDirectory (Path.join p name) = some u ↔
      (Path.join p name).utf8ByteSize < pathLimit ∧ u = t.set (l ++ [name]) .directory := by
  have hdir := isDirectory_join_of_free h hname hfree
  constructor
  · intro hu
    obtain ⟨hstands, -⟩ | hmade := ensureDirectory_join_cases h hname hu
    · rw [hdir] at hstands
      cases hstands
    · have hsize := size_lt_of_makeDirectory? hmade
      rw [makeDirectory?_join h hname hfree hsize] at hmade
      exact ⟨hsize, (Option.some.inj hmade).symm⟩
  · rintro ⟨hsize, rfl⟩
    rw [ensureDirectory, makeDirectories, if_neg, makeDirectory?_join h hname hfree hsize]
    simp [hname.join_ne_empty p, hdir]

/-! ### Files in an existing directory -/

theorem copyTo?_join (h : t.Leads p l) (hname : IsName name)
    (hfree : t.get? (l ++ [name]) = none) (content : List UInt8) (executable : Bool) :
    t.copyTo? (Path.join p name) content executable =
      if (Path.join p name).utf8ByteSize < pathLimit then
        some (t.set (l ++ [name]) (.file content executable)) else none := by
  rw [copyTo?]
  split
  · rename_i hnone
    rw [if_neg]
    intro hsize
    rw [h.locate_join hname hsize (by simp [hfree])] at hnone
    cases hnone
  · rename_i m hm
    have hsize := (of_locate hm).2
    rw [h.locate_join hname hsize (by simp [hfree])] at hm
    cases hm
    rw [hfree, if_pos hsize]

/-! ### Directories on a way -/

theorem of_mem_components (h : name ∈ Path.components p) :
    name ≠ "" ∧ name ≠ "." ∧ '/' ∉ name.toList := by
  rw [Path.components_eq, List.mem_map] at h
  obtain ⟨piece, hpiece, rfl⟩ := h
  obtain ⟨hmem, hcomponent⟩ := List.mem_filter.1 hpiece
  simp only [Path.isComponent, Bool.not_eq_true', Bool.or_eq_false_iff, List.isEmpty_eq_false_iff,
    decide_eq_false_iff_not] at hcomponent
  rw [String.toList_ofList]
  refine ⟨fun h => hcomponent.1 ?_, fun h => hcomponent.2 ?_, Text.sep_not_mem_of_mem_pieces hmem⟩
  · simpa using congrArg String.toList h
  · simpa using congrArg String.toList h

theorem reach_singleton_of_free {links : Nat} (hdot : name ≠ ".") (hparent : name ≠ "..")
    (hfree : t.get? (l ++ [name]) = none) : t.reach links l [name] = none := by
  rw [reach, if_neg hdot, if_neg hparent, hfree]
  split <;> rfl

theorem reach_singleton_of_directory {links : Nat} (hname : IsName name)
    (h : t.get? (l ++ [name]) = some .directory) :
    t.reach links l [name] = some (l ++ [name], links) := by
  rw [reach_cons hname.ne_dot hname.ne_parent (Nat.not_lt.2 hname.size_le), h,
    reach]

variable {above : List String}

/-- The names of a path: those on the way, the last component, and nothing but `.` after it. -/
theorem exists_pathNames_of_components (h : Path.components p = above ++ [name]) :
    ∃ before dots, pathNames p = before ++ name :: dots ∧ before.filter (· ≠ ".") = above ∧
      ∀ dot ∈ dots, dot = "." := by
  rw [Path.components_eq_filter] at h
  obtain ⟨before, after, hnames, rfl, hafter⟩ := List.filter_eq_append_iff.1 h
  obtain ⟨skipped, rest, rfl, hskipped, -, hrest⟩ := List.filter_eq_cons_iff.1 hafter
  refine ⟨before ++ skipped, rest, by rw [hnames, List.append_assoc], ?_, fun dot hdot => ?_⟩
  · rw [List.filter_append, List.filter_eq_nil_iff.2 hskipped, List.append_nil]
  · simpa using List.filter_eq_nil_iff.1 hrest dot hdot

/-- A component that a walk can end with is a name of an entry. -/
theorem isName_of_walk {follow : Bool} {links : Nat} {rest : List String}
    (hmem : name ∈ Path.components p) (hparent : name ≠ "..")
    (h : t.walk follow links l (name :: rest) = some m) : IsName name := by
  obtain ⟨hempty, hdot, hslash⟩ := of_mem_components hmem
  refine ⟨hempty, hdot, hparent, hslash, Nat.not_lt.1 fun hlong => ?_⟩
  rw [walk, if_neg hdot, if_neg hparent, if_pos hlong] at h
  cases h

/-- Where a directory was made there was a free name in a directory, to which the path leads but
for its last component. -/
theorem exists_reach_of_makeDirectory? (wf : t.WellFormed)
    (hstart : t.get? (t.startOf p) = some .directory) (h : t.makeDirectory? p = some u)
    (hcomponents : Path.components p = above ++ [name]) (hparent : name ≠ "..") :
    ∃ d k, t.reach linkLimit (t.startOf p) above = some (d, k) ∧ IsName name ∧
      t.get? d = some .directory ∧ t.get? (d ++ [name]) = none ∧
      u = t.set (d ++ [name]) .directory := by
  rw [makeDirectory?] at h
  split at h
  · cases h
  rename_i l hl
  split at h
  · cases h
  rename_i hmissing
  obtain rfl := (Option.some.inj h).symm
  obtain ⟨hp, hsize⟩ := of_locate hl
  rw [locate_eq hp hsize] at hl
  obtain ⟨before, dots, hnames, hway, hdots⟩ := exists_pathNames_of_components hcomponents
  rw [hnames, walk_append (List.cons_ne_nil name dots), Option.bind_eq_some_iff] at hl
  obtain ⟨⟨d, k⟩, hreach, hend⟩ := hl
  rw [← reach_filter, hway] at hreach
  have hd := wf.get?_of_reach hstart hreach
  obtain rfl | ⟨dots, dot, rfl⟩ := List.eq_nil_or_concat' dots
  · have hname := isName_of_walk (p := p) (by simp [hcomponents]) hparent hend
    rw [walk_singleton_of_not_follow hname] at hend
    cases hend
    exact ⟨d, k, hreach, hname, hd, by simpa using hmissing, rfl⟩
  · -- a path that ends with `.` names a directory that is there
    rw [← List.cons_append, hdots dot (by simp), walk_append (List.cons_ne_nil _ []),
      Option.bind_eq_some_iff] at hend
    obtain ⟨⟨d', k'⟩, hreach', hend⟩ := hend
    rw [walk_dot, walk] at hend
    cases hend
    rw [wf.get?_of_reach hd hreach'] at hmissing
    exact absurd rfl hmissing

theorem leads_set (hp : p ≠ "") (hsize : p.utf8ByteSize < pathLimit) {links : Nat}
    (hname : IsName name) (hfree : t.get? (l ++ [name]) = none)
    (hcomponents : Path.components p = above ++ [name])
    (hreach : t.reach linkLimit (t.startOf p) above = some (l, links)) :
    (t.set (l ++ [name]) .directory).Leads p (l ++ [name]) := by
  have hdir := get?_set_self t (l := l ++ [name]) (by simp) .directory
  have hway := (within_set (by simp) hfree .directory).reach_eq hreach
  refine leads_iff.2 ⟨hp, hsize, hdir, links, ?_⟩
  rw [hcomponents, reach_append]
  rw [show (t.set (l ++ [name]) .directory).startOf p = t.startOf p from rfl, hway]
  exact reach_singleton_of_directory hname hdir

/-- What is made in a directory is new and empty. -/
theorem get?_set_append_of_free (wf : t.WellFormed) (hfree : t.get? (l ++ [name]) = none)
    (e : Entry) {rel : Location} (hrel : rel ≠ []) :
    (t.set (l ++ [name]) e).get? (l ++ [name] ++ rel) = none := by
  rw [get?_set t (by simp), if_neg (by simpa using hrel)]
  exact wf.get?_append_eq_none hrel (by simp [hfree])

theorem get?_startOf (hcwd : t.get? t.cwd = some .directory) (p : String) :
    t.get? (t.startOf p) = some .directory := by
  rw [startOf]
  split
  · rfl
  · exact hcwd

/-- What is made in a directory that was empty when it was made. -/
theorem made_in_empty {q : String} (hleads : v.Leads q l) (hmade : t.Made v l)
    (hempty : ∀ rel, rel ≠ [] → v.get? (l ++ rel) = none) (hp : p ≠ "")
    (hcomponents : Path.components p = Path.components q ++ [name])
    (habsolute : Path.isAbsolute q = Path.isAbsolute p) (hname : name ≠ "..")
    (hcwd : t.get? t.cwd = some .directory)
    (h : v.isDirectory p = true ∧ u = v ∨ v.makeDirectory? p = some u) :
    u.Leads p (l ++ [name]) ∧ t.Made u (l ++ [name]) ∧
      (∀ rel, rel ≠ [] → u.get? (l ++ [name] ++ rel) = none) ∧
      u = v.set (l ++ [name]) .directory := by
  have hfree : v.get? (l ++ [name]) = none := hempty [name] (List.cons_ne_nil name [])
  obtain ⟨-, -, -, k, hreach⟩ := leads_iff.1 hleads
  have hway : v.reach linkLimit (v.startOf p) (Path.components q) = some (l, k) := by
    rwa [startOf, ← habsolute]
  obtain ⟨hdir, -⟩ | hmade' := h
  · obtain ⟨m, hm⟩ := isDirectory_iff_leads.1 hdir
    obtain ⟨-, -, -, k', hreach'⟩ := leads_iff.1 hm
    have hdot : name ≠ "." := (of_mem_components (p := p) (by simp [hcomponents])).2.1
    rw [hcomponents, reach_append, hway, Option.bind_some,
      reach_singleton_of_free hdot hname hfree] at hreach'
    cases hreach'
  · have hcwd' : v.get? v.cwd = some .directory :=
      hmade.within.cwd_eq ▸ hmade.within.get?_eq hcwd
    obtain ⟨d, k', hreach', hname, hd, -, rfl⟩ :=
      exists_reach_of_makeDirectory? hmade.wellFormed (get?_startOf hcwd' p) hmade' hcomponents hname
    obtain ⟨rfl, rfl⟩ : l = d ∧ k = k' := by simpa [hway] using hreach'
    exact ⟨leads_set hp (size_lt_of_makeDirectory? hmade') hname hfree hcomponents hway,
      hmade.trans (Made.set hmade.wellFormed hname hd hfree) (List.prefix_append l [name]),
      fun rel hrel => get?_set_append_of_free hmade.wellFormed hfree _ hrel, rfl⟩

/-- The path only goes down from a directory that is there: no `..` follows after the way to it. -/
def GoesDown (t : FileTree) (p : String) : Prop :=
  ∃ above below l links, Path.components p = above ++ below ∧
    t.reach linkLimit (t.startOf p) above = some (l, links) ∧ ".." ∉ below

/-- A path without any `..` does so in every tree. -/
theorem goesDown_of_not_mem (t : FileTree) (h : ".." ∉ Path.components p) : t.GoesDown p :=
  ⟨[], _, _, _, rfl, reach.eq_1 .., h⟩

theorem GoesDown.of_components {q : String} (h : t.GoesDown p)
    (hsame : Path.components p = Path.components q)
    (habsolute : Path.isAbsolute q = Path.isAbsolute p) : t.GoesDown q := by
  rw [GoesDown, ← hsame, startOf, habsolute]
  exact h

/-- Nothing has to be made where a directory stands. -/
theorem made_of_isDirectory (wf : t.WellFormed) (hstands : t.isDirectory p = true) :
    ∃ l, t.Leads p l ∧ t.Made t l ∧
      (t.exists? p = false → ∀ rel, rel ≠ [] → t.get? (l ++ rel) = none) := by
  obtain ⟨l, hl⟩ := isDirectory_iff_leads.1 hstands
  refine ⟨l, hl, Made.refl wf l, fun hmissing => ?_⟩
  rw [exists?_of_isDirectory hstands] at hmissing
  cases hmissing

/-- Directories made on a way that goes down lead to the one that the path names, and that is
empty if nothing stood there. -/
theorem makeDirectories_made (wf : t.WellFormed) (hcwd : t.get? t.cwd = some .directory)
    (hdown : t.GoesDown p) (hp : p ≠ "") (h : makeDirectories depth t p = some u) :
    ∃ l, u.Leads p l ∧ t.Made u l ∧
      (t.exists? p = false → ∀ rel, rel ≠ [] → u.get? (l ++ rel) = none) := by
  induction depth generalizing p u with
  | zero => cases h
  | succ depth ih =>
    obtain ⟨above, below, d, k, hcomponents, hreach, hbelow⟩ := hdown
    obtain rfl | ⟨below, name, rfl⟩ := List.eq_nil_or_concat' below
    · -- the path leads to a directory that is there
      have hdir := wf.get?_of_reach (get?_startOf hcwd p) hreach
      have hleads : t.Leads p d := leads_iff.2
        ⟨hp, size_lt_of_makeDirectories hp h, hdir, k, by rwa [hcomponents, List.append_nil]⟩
      have hstands := isDirectory_iff_leads.2 ⟨d, hleads⟩
      rw [makeDirectories, if_pos (by simp [hstands])] at h
      cases h
      exact made_of_isDirectory wf hstands
    rw [← List.append_assoc] at hcomponents
    have hname : name ≠ ".." := fun h => hbelow (by simp [h])
    obtain ⟨hdir, rfl⟩ | hmade | ⟨depth, q, v, hdepth, hq, hempty, hmissing, hv, hu⟩ :=
      makeDirectories_cases hp h
    · exact made_of_isDirectory wf hdir
    · obtain ⟨d, k, hreach, hname, hd, hfree, rfl⟩ :=
        exists_reach_of_makeDirectory? wf (get?_startOf hcwd p) hmade hcomponents hname
      exact ⟨d ++ [name],
        leads_set hp (size_lt_of_makeDirectory? hmade) hname hfree hcomponents hreach,
        Made.set wf hname hd hfree, fun _ rel hrel => get?_set_append_of_free wf hfree _ hrel⟩
    · cases hdepth
      obtain ⟨⟨last, hlast⟩, habsolute⟩ := Path.components_of_parent? hq hempty
      obtain ⟨hsame, hname'⟩ := List.append_inj' (hcomponents.symm.trans hlast) rfl
      obtain rfl := List.singleton_inj.1 hname'
      have hdown : t.GoesDown q :=
        ⟨above, below, d, k, hsame.symm, by rwa [startOf, habsolute],
          fun h => hbelow (List.mem_append_left _ h)⟩
      obtain ⟨l, hleads, hmade, hfresh⟩ := ih hdown hempty hv
      obtain ⟨hleads', hmade', hempty', -⟩ := made_in_empty hleads hmade (hfresh hmissing) hp
        hlast habsolute hname hcwd hu
      exact ⟨l ++ [name], hleads', hmade', fun _ => hempty'⟩

theorem utf8ByteSize_le_join (hname : IsName name) (p : String) :
    p.utf8ByteSize ≤ (Path.join p name).utf8ByteSize := by
  rw [Path.join, hname.isAbsolute_eq_false, Bool.false_or]
  split
  · rename_i hempty
    simp [String.isEmpty_iff.1 hempty]
  split
  · rw [String.utf8ByteSize_append]
    omega
  · rw [String.utf8ByteSize_append, String.utf8ByteSize_append]
    omega

/-- What a joined path leads to is there only if the directory is. -/
theorem isDirectory_of_exists?_join (wf : t.WellFormed) (hcwd : t.get? t.cwd = some .directory)
    (hname : IsName name) (hp : p ≠ "") (h : t.exists? (Path.join p name) = true) :
    t.isDirectory p = true := by
  rw [exists?, find?, Option.isSome_iff_exists] at h
  obtain ⟨e, he⟩ := h
  obtain ⟨m, hm, -⟩ := Option.bind_eq_some_iff.1 he
  obtain ⟨l, k, hreach, -⟩ := reach_of_locate_join hname hp hm
  have hdir := wf.get?_of_reach (get?_startOf hcwd p) hreach
  have hsize := (utf8ByteSize_le_join hname p).trans_lt (of_locate hm).2
  exact isDirectory_iff_leads.2 ⟨l, leads_iff.2 ⟨hp, hsize, hdir, k, hreach⟩⟩

theorem isDirectory_of_makeDirectory?_join (wf : t.WellFormed)
    (hcwd : t.get? t.cwd = some .directory) (hname : IsName name) (hp : p ≠ "")
    (h : t.makeDirectory? (Path.join p name) = some u) : t.isDirectory p = true := by
  obtain ⟨d, k, hreach, -, hd, -, -⟩ := exists_reach_of_makeDirectory? wf
    (get?_startOf hcwd _) h (Path.components_join hname p) hname.ne_parent
  rw [startOf_join hname hp] at hreach
  have hsize := (utf8ByteSize_le_join hname p).trans_lt (size_lt_of_makeDirectory? h)
  exact isDirectory_iff_leads.2 ⟨d, leads_iff.2 ⟨hp, hsize, hd, k, hreach⟩⟩

/-- A directory is not made in what is there and is none. -/
theorem isDirectory_of_ensureDirectory_join {last : String} (wf : t.WellFormed)
    (hcwd : t.get? t.cwd = some .directory) (hlast : IsName last) (hname : IsName name)
    (hstands : t.exists? (Path.join p last) = true)
    (h : t.ensureDirectory (Path.join (Path.join p last) name) = some u) :
    t.isDirectory (Path.join p last) = true := by
  have hp := hlast.join_ne_empty p
  obtain ⟨hdir, -⟩ | hmade | ⟨depth, q, v, -, hq, -, hmissing, -⟩ :=
    makeDirectories_cases (hname.join_ne_empty _) h
  · exact isDirectory_of_exists?_join wf hcwd hname hp (exists?_of_isDirectory hdir)
  · exact isDirectory_of_makeDirectory?_join wf hcwd hname hp hmade
  · obtain rfl := Option.some.inj ((Path.parent?_join hlast hname p).symm.trans hq)
    rw [hstands] at hmissing
    cases hmissing

/-- A directory in one that is missing is made with that one, which holds nothing else. -/
theorem ensureDirectory_join_of_missing (wf : t.WellFormed) (hcwd : t.get? t.cwd = some .directory)
    (hname : IsName name) (hp : p ≠ "") (hdown : t.GoesDown p)
    (hmissing : t.exists? p = false) (h : t.ensureDirectory (Path.join p name) = some u) :
    ∃ l v, v.Leads p l ∧ t.Made v l ∧ (∀ rel, rel ≠ [] → v.get? (l ++ rel) = none) ∧
      u = v.set (l ++ [name]) .directory := by
  have hcomponents := Path.components_join hname p
  have hsize := size_lt_of_makeDirectories (hname.join_ne_empty p) h
  obtain ⟨hdir, -⟩ | hmade | ⟨below, q, v, -, hq, hempty, hmissing', hv, hu⟩ :=
    makeDirectories_cases (hname.join_ne_empty p) h
  · have hstands :=
      isDirectory_of_exists?_join wf hcwd hname hp (exists?_of_isDirectory hdir)
    rw [exists?_of_isDirectory hstands] at hmissing
    cases hmissing
  · have hstands := isDirectory_of_makeDirectory?_join wf hcwd hname hp hmade
    rw [exists?_of_isDirectory hstands] at hmissing
    cases hmissing
  · obtain ⟨⟨last, hlast⟩, habsolute⟩ := Path.components_of_parent? hq hempty
    obtain ⟨hsame, rfl⟩ : Path.components p = Path.components q ∧ name = last := by
      simpa [hcomponents] using hlast
    have habsolute' : Path.isAbsolute q = Path.isAbsolute p :=
      habsolute.trans (Path.isAbsolute_join hname hp)
    obtain ⟨l, hleads, hmade, hfresh⟩ :=
      makeDirectories_made wf hcwd (hdown.of_components hsame habsolute') hempty hv
    obtain ⟨-, -, -, rfl⟩ := made_in_empty hleads hmade (hfresh hmissing') (hname.join_ne_empty p)
      hlast habsolute hname.ne_parent hcwd hu
    obtain ⟨-, -, hdir, k, hreach⟩ := leads_iff.1 hleads
    refine ⟨l, v, leads_iff.2 ⟨hp, (utf8ByteSize_le_join hname p).trans_lt hsize, hdir, k, ?_⟩,
      hmade, hfresh hmissing', rfl⟩
    rwa [hsame, startOf, ← habsolute']

end

end HouseRules.FileTree
