import HouseRules.Proofs.FileTree.Removal
import HouseRules.Proofs.FileTree.WellFormed
import HouseRules.Proofs.Path.Components

/-! Ways along names into directories, every link followed. A way along some names and then
others is one way after the other, with the links that may still be followed, and the name `.` has
no part in it. So what a joined path leads to is settled by the directory that it is joined from. -/

namespace HouseRules.FileTree

/-- The way along names into a directory, and how many links may be followed after it. -/
def reach (t : FileTree) : Nat → Location → List String → Option (Location × Nat)
  | links, l, [] => some (l, links)
  | links, l, name :: rest =>
    if name = "." then reach t links l rest
    else if name = ".." then reach t links l.dropLast rest
    else if nameLimit < name.utf8ByteSize then none
    else match t.get? (l ++ [name]) with
      | some .directory => reach t links (l ++ [name]) rest
      | some (.link target) =>
        match links with
        | 0 => none
        | links + 1 =>
          reach t links (if Path.isAbsolute target then [] else l) (pathNames target ++ rest)
      | _ => none
termination_by links _ names => (links, names.length)

section

variable {t : FileTree} {links : Nat} {l m : Location} {name : String} {a b rest : List String}

theorem reach_dot : t.reach links l ("." :: rest) = t.reach links l rest := by
  rw [reach, if_pos rfl]

theorem reach_parent : t.reach links l (".." :: rest) = t.reach links l.dropLast rest := by
  rw [reach, if_neg (by decide), if_pos rfl]

/-- A way goes on from a name by what stands there. -/
theorem reach_cons (hdot : name ≠ ".") (hparent : name ≠ "..")
    (hsize : ¬nameLimit < name.utf8ByteSize) :
    t.reach links l (name :: rest) =
      match t.get? (l ++ [name]) with
      | some .directory => t.reach links (l ++ [name]) rest
      | some (.link target) =>
        match links with
        | 0 => none
        | links + 1 =>
          t.reach links (if Path.isAbsolute target then [] else l) (pathNames target ++ rest)
      | _ => none := by
  rw [reach, if_neg hdot, if_neg hparent, if_neg hsize]

theorem reach_append :
    t.reach links l (a ++ b) = (t.reach links l a).bind fun x => t.reach x.2 x.1 b := by
  fun_induction reach t links l a with
  | case1 => rfl
  | case2 links l rest ih => rw [List.cons_append, reach_dot, ih]
  | case3 links l rest _ ih => rw [List.cons_append, reach_parent, ih]
  | case4 links l name rest hdot hparent hsize =>
    rw [List.cons_append, reach, if_neg hdot, if_neg hparent, if_pos hsize]
    rfl
  | case5 links l name rest hdot hparent hsize hget ih =>
    rw [List.cons_append, reach_cons hdot hparent hsize, hget, ih]
  | case6 l name rest hdot hparent hsize target hget =>
    rw [List.cons_append, reach_cons hdot hparent hsize, hget]
    rfl
  | case7 l name rest hdot hparent hsize target hget links ih =>
    rw [List.append_assoc] at ih
    rw [List.cons_append, reach_cons hdot hparent hsize, hget]
    exact ih
  | case8 links l name rest hdot hparent hsize hdir hlink =>
    rw [List.cons_append, reach_cons hdot hparent hsize]
    split <;> simp_all

theorem reach_filter : t.reach links l (a.filter (· ≠ ".")) = t.reach links l a := by
  induction a generalizing links l with
  | nil => rfl
  | cons name rest ih =>
    by_cases hdot : name = "."
    · rw [reach, if_pos hdot, ← ih, hdot]
      rfl
    · rw [List.filter_cons_of_pos (by simpa using hdot), ← List.singleton_append, reach_append,
        ← List.singleton_append (l := rest), reach_append]
      congr 1
      funext x
      exact ih

/-- A walk goes on from where a way leads. -/
theorem walk_append {follow : Bool} (hb : b ≠ []) :
    t.walk follow links l (a ++ b) =
      (t.reach links l a).bind fun x => t.walk follow x.2 x.1 b := by
  have more (rest : List String) : (rest ++ b).isEmpty = false := by simp [hb]
  fun_induction reach t links l a with
  | case1 => rfl
  | case2 links l rest ih => rw [List.cons_append, walk_dot, ih]
  | case3 links l rest _ ih => rw [List.cons_append, walk_parent, ih]
  | case4 links l name rest hdot hparent hsize =>
    rw [List.cons_append, walk, if_neg hdot, if_neg hparent, if_pos hsize]
    rfl
  | case5 links l name rest hdot hparent hsize hget ih =>
    rw [List.cons_append, walk_cons hdot hparent hsize, hget, ih]
  | case6 l name rest hdot hparent hsize target hget =>
    rw [List.cons_append, walk_cons hdot hparent hsize, hget]
    simp [more]
  | case7 l name rest hdot hparent hsize target hget links ih =>
    rw [List.append_assoc] at ih
    rw [List.cons_append, walk_cons hdot hparent hsize, hget]
    simp only [more, Bool.false_and, Bool.false_eq_true, if_false]
    exact ih
  | case8 links l name rest hdot hparent hsize hdir hlink =>
    rw [List.cons_append, walk_cons hdot hparent hsize]
    split <;> simp_all

/-- A walk that ends at a directory is the way there. -/
theorem walk_eq_iff_reach (hm : t.get? m = some .directory) :
    t.walk true links l a = some m ↔ ∃ k, t.reach links l a = some (m, k) := by
  fun_induction reach t links l a with
  | case1 links l => simp [walk]
  | case2 links l rest ih => rw [walk_dot, ih]
  | case3 links l rest _ ih => rw [walk_parent, ih]
  | case4 links l name rest hdot hparent hsize =>
    rw [walk, if_neg hdot, if_neg hparent, if_pos hsize]
    simp
  | case5 links l name rest hdot hparent hsize hget ih =>
    rw [walk_cons hdot hparent hsize, hget, ih]
  | case6 l name rest hdot hparent hsize target hget =>
    rw [walk_cons hdot hparent hsize, hget]
    simp
  | case7 l name rest hdot hparent hsize target hget links ih =>
    rw [walk_cons hdot hparent hsize, hget]
    simpa using ih
  | case8 links l name rest hdot hparent hsize hdir hlink =>
    rw [walk_cons hdot hparent hsize]
    split
    · simp_all
    · rename_i content executable hget
      simp only [ite_eq_iff, Option.some.injEq, reduceCtorEq, and_false, or_false, exists_false,
        iff_false]
      rintro ⟨-, rfl⟩
      rw [hget] at hm
      cases hm
    · simp_all
    · rename_i hget
      simp only [ite_eq_iff, Option.some.injEq, reduceCtorEq, and_false, or_false, exists_false,
        iff_false]
      rintro ⟨-, rfl⟩
      rw [hget] at hm
      cases hm

end

/-! ### Paths into directories -/

/-- The directory from which a path is read. -/
def startOf (t : FileTree) (p : String) : Location := if Path.isAbsolute p then [] else t.cwd

/-- A path leads to a directory. -/
def Leads (t : FileTree) (p : String) (l : Location) : Prop :=
  t.locate true p = some l ∧ t.get? l = some .directory

section

variable {t : FileTree} {p name : String} {l m : Location} {follow : Bool}

theorem locate_eq (hp : p ≠ "") (hsize : p.utf8ByteSize < pathLimit) :
    t.locate follow p = t.walk follow linkLimit (t.startOf p) (pathNames p) := by
  rw [locate, if_neg (by simpa [hp] using hsize), startOf]

theorem of_locate (h : t.locate follow p = some l) : p ≠ "" ∧ p.utf8ByteSize < pathLimit := by
  rw [locate] at h
  split at h
  · cases h
  · simp_all

theorem leads_iff :
    t.Leads p l ↔ p ≠ "" ∧ p.utf8ByteSize < pathLimit ∧ t.get? l = some .directory ∧
      ∃ k, t.reach linkLimit (t.startOf p) (Path.components p) = some (l, k) := by
  rw [Path.components_eq_filter, reach_filter]
  constructor
  · rintro ⟨hl, hdir⟩
    obtain ⟨hp, hsize⟩ := of_locate hl
    rw [locate_eq hp hsize, walk_eq_iff_reach hdir] at hl
    exact ⟨hp, hsize, hdir, hl⟩
  · rintro ⟨hp, hsize, hdir, hl⟩
    rw [← walk_eq_iff_reach hdir, ← locate_eq hp hsize] at hl
    exact ⟨hl, hdir⟩

theorem isDirectory_iff_leads : t.isDirectory p = true ↔ ∃ l, t.Leads p l := isDirectory_iff

theorem leads_root (t : FileTree) : t.Leads "/" [] :=
  leads_iff.2 ⟨by decide, by decide, rfl, linkLimit, by
    rw [show Path.components "/" = [] from by decide, reach]
    rfl⟩

/-! ### Joined paths -/

theorem startOf_join (h : IsName name) (hp : p ≠ "") : t.startOf (Path.join p name) = t.startOf p := by
  rw [startOf, startOf, Path.isAbsolute_join h hp]

/-- The names of a joined path are, up to `.`, the components it is joined from. -/
theorem exists_pathNames_join (h : IsName name) (p : String) :
    ∃ before, pathNames (Path.join p name) = before ++ [name] ∧
      before.filter (· ≠ ".") = Path.components p := by
  obtain ⟨before, hbefore⟩ := List.getLast?_eq_some_iff.1 (getLast?_pathNames_join h p)
  have whole := Path.components_join h p
  rw [Path.components_eq_filter (Path.join p name), hbefore, List.filter_append,
    List.filter_cons_of_pos (by simpa using h.ne_dot), List.filter_nil] at whole
  exact ⟨before, hbefore, List.append_cancel_right whole⟩

theorem locate_join (h : IsName name) (hp : p ≠ "")
    (hsize : (Path.join p name).utf8ByteSize < pathLimit) :
    t.locate follow (Path.join p name) =
      (t.reach linkLimit (t.startOf p) (Path.components p)).bind fun x =>
        t.walk follow x.2 x.1 [name] := by
  obtain ⟨before, hnames, hbefore⟩ := exists_pathNames_join h p
  rw [locate_eq (h.join_ne_empty p) hsize, hnames, walk_append (List.cons_ne_nil name []),
    startOf_join h hp, ← hbefore, reach_filter]

theorem walk_singleton_of_not_link {k : Nat} (h : IsName name)
    (hlink : ∀ target, t.get? (l ++ [name]) ≠ some (.link target)) :
    t.walk follow k l [name] = some (l ++ [name]) := by
  rcases hget : t.get? (l ++ [name]) with _ | _ | ⟨content, executable⟩ | target
  · rw [walk_of_missing h hget]
    rfl
  · rw [walk_of_directory h hget, walk]
  · rw [walk_of_file h hget]
    rfl
  · exact absurd hget (hlink target)

theorem walk_singleton_of_not_follow {k : Nat} (h : IsName name) :
    t.walk false k l [name] = some (l ++ [name]) := by
  by_cases hlink : ∃ target, t.get? (l ++ [name]) = some (.link target)
  · obtain ⟨target, hget⟩ := hlink
    rw [walk_cons h.ne_dot h.ne_parent (Nat.not_lt.2 h.size_le), hget]
    rfl
  · exact walk_singleton_of_not_link h fun target hget => hlink ⟨target, hget⟩

namespace Leads

theorem unique (h : t.Leads p l) (h' : t.Leads p m) : l = m := by
  have same := h.1.symm.trans h'.1
  exact Option.some.inj same

/-- What a joined path leads to unless that is a link, or the link itself. -/
theorem locate_join (h : t.Leads p l) (hname : IsName name)
    (hsize : (Path.join p name).utf8ByteSize < pathLimit)
    (hlink : follow = true → ∀ target, t.get? (l ++ [name]) ≠ some (.link target)) :
    t.locate follow (Path.join p name) = some (l ++ [name]) := by
  obtain ⟨hp, -, -, k, hreach⟩ := leads_iff.1 h
  rw [FileTree.locate_join hname hp hsize, hreach]
  cases follow with
  | false => exact walk_singleton_of_not_follow hname
  | true => exact walk_singleton_of_not_link hname (hlink rfl)

theorem join (h : t.Leads p l) (hname : IsName name)
    (hsize : (Path.join p name).utf8ByteSize < pathLimit)
    (hdir : t.get? (l ++ [name]) = some .directory) : t.Leads (Path.join p name) (l ++ [name]) :=
  ⟨h.locate_join hname hsize fun _ target hget => by simp [hdir] at hget, hdir⟩

theorem find?_join (h : t.Leads p l) (hname : IsName name)
    (hlink : ∀ target, t.get? (l ++ [name]) ≠ some (.link target)) :
    t.find? (Path.join p name) =
      if (Path.join p name).utf8ByteSize < pathLimit then t.get? (l ++ [name]) else none := by
  rw [find?]
  split
  · rename_i hsize
    rw [h.locate_join hname hsize fun _ => hlink, Option.bind_some]
  · rename_i hsize
    rw [locate, if_pos (by simp [Nat.not_lt.1 hsize])]
    rfl

end Leads

/-- What a joined path leads to is reached from the directory it is joined from. -/
theorem reach_of_locate_join (hname : IsName name) (hp : p ≠ "")
    (h : t.locate follow (Path.join p name) = some m) :
    ∃ l k, t.reach linkLimit (t.startOf p) (Path.components p) = some (l, k) ∧
      t.walk follow k l [name] = some m := by
  rw [locate_join hname hp (of_locate h).2, Option.bind_eq_some_iff] at h
  obtain ⟨⟨l, k⟩, hreach, hwalk⟩ := h
  exact ⟨l, k, hreach, hwalk⟩

end

/-- A way from a directory leads to a directory. -/
theorem WellFormed.get?_of_reach {t : FileTree} (wf : t.WellFormed) {links k : Nat}
    {l m : Location} {names : List String} (hl : t.get? l = some .directory)
    (h : t.reach links l names = some (m, k)) : t.get? m = some .directory := by
  fun_induction reach t links l names with
  | case1 links l =>
    cases h
    exact hl
  | case2 links l rest ih => exact ih hl h
  | case3 links l rest _ ih =>
    refine ih ?_ h
    obtain rfl | ⟨above, name, rfl⟩ := List.eq_nil_or_concat' l
    · rfl
    · rw [List.dropLast_concat]
      exact wf.get?_of_concat hl
  | case4 => cases h
  | case5 links l name rest _ _ _ hget ih => exact ih hget h
  | case6 => cases h
  | case7 l name rest _ _ _ target hget links ih =>
    refine ih ?_ h
    split
    · rfl
    · exact hl
  | case8 => cases h

end HouseRules.FileTree
