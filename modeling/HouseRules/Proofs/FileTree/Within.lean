import HouseRules.Proofs.FileTree.Ways

/-! File trees within others. What a path leads to in a tree it leads to in every tree that has
all of the first one, and two trees with the same at every location show the same at every path. -/

namespace HouseRules.FileTree

/-- A tree has all that another one has. -/
structure Within (t u : FileTree) : Prop where
  cwd_eq : t.cwd = u.cwd
  get?_eq : ∀ {l e}, t.get? l = some e → u.get? l = some e

/-- Two trees have the same at every location. -/
structure Same (t u : FileTree) : Prop where
  cwd_eq : t.cwd = u.cwd
  get?_eq : ∀ l, t.get? l = u.get? l

/-- Two trees nowhere have different things. -/
structure Agree (t u : FileTree) : Prop where
  cwd_eq : t.cwd = u.cwd
  eq_of_get? : ∀ {l e e'}, t.get? l = some e → u.get? l = some e' → e = e'

section

variable {t u v : FileTree} {links k : Nat} {l m : Location} {names : List String} {p : String}
  {follow : Bool} {e : Entry}

/-! ### Within -/

namespace Within

theorem refl (t : FileTree) : t.Within t := ⟨rfl, id⟩

theorem trans (h : t.Within u) (h' : u.Within v) : t.Within v :=
  ⟨h.cwd_eq.trans h'.cwd_eq, fun hl => h'.get?_eq (h.get?_eq hl)⟩

theorem startOf_eq (h : t.Within u) (p : String) : t.startOf p = u.startOf p := by
  rw [startOf, startOf, h.cwd_eq]

theorem reach_eq (h : t.Within u) (hreach : t.reach links l names = some (m, k)) :
    u.reach links l names = some (m, k) := by
  fun_induction reach t links l names with
  | case1 links l => rwa [reach]
  | case2 links l rest ih => rw [reach_dot, ih hreach]
  | case3 links l rest _ ih => rw [reach_parent, ih hreach]
  | case4 => cases hreach
  | case5 links l name rest hdot hparent hsize hget ih =>
    rw [reach_cons hdot hparent hsize, h.get?_eq hget]
    exact ih hreach
  | case6 => cases hreach
  | case7 l name rest hdot hparent hsize target hget links ih =>
    rw [reach_cons hdot hparent hsize, h.get?_eq hget]
    exact ih hreach
  | case8 => cases hreach

/-- A walk to something leads there in a tree that has more. -/
theorem walk_eq (h : t.Within u) (hwalk : t.walk follow links l names = some m)
    (hm : t.get? m = some e) : u.walk follow links l names = some m := by
  fun_induction walk t follow links l names with
  | case1 links l => rwa [walk]
  | case2 links l rest ih => rw [walk_dot, ih hwalk]
  | case3 links l rest _ ih => rw [walk_parent, ih hwalk]
  | case4 => cases hwalk
  | case5 links l name rest hdot hparent hsize hget ih =>
    rw [walk_cons hdot hparent hsize, h.get?_eq hget]
    exact ih hwalk
  | case6 links l name rest hdot hparent hsize content executable hget hrest =>
    rw [walk_cons hdot hparent hsize, h.get?_eq hget]
    simpa [hrest] using hwalk
  | case7 => cases hwalk
  | case8 links l name rest hdot hparent hsize target hget hrest =>
    rw [walk_cons hdot hparent hsize, h.get?_eq hget]
    simpa only [hrest, if_true] using hwalk
  | case9 => cases hwalk
  | case10 l name rest hdot hparent hsize target hget hrest links ih =>
    rw [walk_cons hdot hparent hsize, h.get?_eq hget]
    simp only [hrest]
    exact ih hwalk
  | case11 links l name rest hdot hparent hsize hget hrest =>
    cases hwalk
    rw [hget] at hm
    cases hm
  | case12 => cases hwalk

theorem locate_eq (h : t.Within u) (hl : t.locate follow p = some l) (he : t.get? l = some e) :
    u.locate follow p = some l := by
  obtain ⟨hp, hsize⟩ := of_locate hl
  rw [FileTree.locate_eq hp hsize] at hl ⊢
  rw [← h.startOf_eq]
  exact h.walk_eq hl he

theorem leads (h : t.Within u) (hp : t.Leads p l) : u.Leads p l :=
  ⟨h.locate_eq hp.1 hp.2, h.get?_eq hp.2⟩

theorem find?_eq (h : t.Within u) (hp : t.find? p = some e) : u.find? p = some e := by
  rw [find?, Option.bind_eq_some_iff] at hp
  obtain ⟨l, hl, he⟩ := hp
  rw [find?, h.locate_eq hl he]
  exact h.get?_eq he

end Within

/-! ### Agreement -/

namespace Agree

theorem get?_eq (h : t.Agree u) {e' : Entry} (ht : t.get? l = some e) (hu : u.get? l = some e') :
    u.get? l = some e :=
  hu.trans (congrArg some (h.eq_of_get? ht hu).symm)

/-- Walks to something end alike in trees that agree. -/
theorem walk_eq (h : t.Agree u) {n : Location} {e' : Entry}
    (ht : t.walk true links l names = some m) (hm : t.get? m = some e)
    (hu : u.walk true links l names = some n) (hn : u.get? n = some e') : m = n := by
  fun_induction walk t true links l names with
  | case1 links l =>
    rw [walk] at hu
    exact Option.some.inj (ht.symm.trans hu)
  | case2 links l rest ih =>
    rw [walk_dot] at hu
    exact ih ht hu
  | case3 links l rest _ ih =>
    rw [walk_parent] at hu
    exact ih ht hu
  | case4 => cases ht
  | case5 links l name rest hdot hparent hsize hget ih =>
    obtain ⟨other, hother⟩ := exists_get?_of_walk_cons hdot hparent hsize hu hn
    rw [walk_cons hdot hparent hsize, h.get?_eq hget hother] at hu
    exact ih ht hu
  | case6 links l name rest hdot hparent hsize content executable hget hrest =>
    cases ht
    obtain ⟨other, hother⟩ := exists_get?_of_walk_cons hdot hparent hsize hu hn
    rw [walk_cons hdot hparent hsize, h.get?_eq hget hother] at hu
    simpa [hrest] using hu
  | case7 => cases ht
  | case8 links l name rest hdot hparent hsize target hget hrest => simp at hrest
  | case9 => cases ht
  | case10 l name rest hdot hparent hsize target hget hrest links ih =>
    obtain ⟨other, hother⟩ := exists_get?_of_walk_cons hdot hparent hsize hu hn
    rw [walk_cons hdot hparent hsize, h.get?_eq hget hother] at hu
    simp only [hrest] at hu
    exact ih ht hu
  | case11 links l name rest hdot hparent hsize hget hrest =>
    cases ht
    rw [hget] at hm
    cases hm
  | case12 => cases ht

theorem locate_eq (h : t.Agree u) {n : Location} {e' : Entry} (ht : t.locate true p = some m)
    (hm : t.get? m = some e) (hu : u.locate true p = some n) (hn : u.get? n = some e') :
    m = n := by
  obtain ⟨hp, hsize⟩ := of_locate ht
  rw [FileTree.locate_eq hp hsize] at ht hu
  rw [startOf, ← h.cwd_eq] at hu
  exact h.walk_eq ht hm hu hn

end Agree

/-! ### Same trees -/

namespace Same

theorem refl (t : FileTree) : t.Same t := ⟨rfl, fun _ => rfl⟩

theorem symm (h : t.Same u) : u.Same t := ⟨h.cwd_eq.symm, fun l => (h.get?_eq l).symm⟩

theorem trans (h : t.Same u) (h' : u.Same v) : t.Same v :=
  ⟨h.cwd_eq.trans h'.cwd_eq, fun l => (h.get?_eq l).trans (h'.get?_eq l)⟩

theorem within (h : t.Same u) : t.Within u :=
  ⟨h.cwd_eq, fun {l _} hl => (h.get?_eq l).symm.trans hl⟩

theorem walk_eq (h : t.Same u) (follow : Bool) (links : Nat) (l : Location)
    (names : List String) : t.walk follow links l names = u.walk follow links l names := by
  fun_induction walk t follow links l names with
  | case1 links l => rw [walk]
  | case2 links l rest ih => rw [walk_dot, ih]
  | case3 links l rest _ ih => rw [walk_parent, ih]
  | case4 links l name rest hdot hparent hsize =>
    rw [walk, if_neg hdot, if_neg hparent, if_pos hsize]
  | case5 links l name rest hdot hparent hsize hget ih =>
    rw [walk_cons hdot hparent hsize, ← h.get?_eq, hget, ih]
  | case6 | case7 | case8 | case9 | case11 | case12 =>
    rw [walk]
    simp_all [← h.get?_eq]
  | case10 l name rest hdot hparent hsize target hget hrest links ih =>
    rw [walk_cons hdot hparent hsize, ← h.get?_eq, hget]
    simp only [hrest]
    exact ih

theorem locate_eq (h : t.Same u) (follow : Bool) (p : String) :
    t.locate follow p = u.locate follow p := by
  rw [locate, locate, h.cwd_eq, h.walk_eq]

theorem find?_eq (h : t.Same u) (p : String) : t.find? p = u.find? p := by
  rw [find?, find?, h.locate_eq]
  congr 1
  exact funext h.get?_eq

theorem leads (h : t.Same u) (hp : t.Leads p l) : u.Leads p l := h.within.leads hp

theorem set (h : t.Same u) (l : Location) (e : Entry) : (t.set l e).Same (u.set l e) := by
  refine ⟨h.cwd_eq, fun m => ?_⟩
  by_cases hl : l = []
  · subst hl
    cases m with
    | nil => rfl
    | cons name m => rw [get?_set_of_ne t (by simp), get?_set_of_ne u (by simp), h.get?_eq]
  · rw [get?_set t hl, get?_set u hl, h.get?_eq]

theorem listing?_eq (h : t.Same u) (wf : t.WellFormed) (wfu : u.WellFormed) (p : String) :
    t.listing? p = u.listing? p := by
  have same (l : Location) : t.listing l = u.listing l :=
    wf.listing_congr wfu fun name => h.get?_eq (l ++ [name])
  rw [listing?, listing?, h.locate_eq]
  simp only [h.get?_eq, same]

end Same

end

/-! ### Emptied and erased places -/

/-- The tree without what stands below a location. -/
def emptied (t : FileTree) (l : Location) : FileTree :=
  { t with entries := t.entries.filter fun x => !(l.isPrefixOf x.1 && x.1 ≠ l) }

theorem get?_emptied (t : FileTree) (l m : Location) :
    (t.emptied l).get? m = if l <+: m ∧ m ≠ l then none else t.get? m := by
  have at_m (x : Location × Entry) :
      (!(l.isPrefixOf x.1 && decide (x.1 ≠ l)) && decide (x.1 = m)) =
        (!(l.isPrefixOf m && decide (m ≠ l)) && decide (x.1 = m)) := by
    by_cases hx : x.1 = m
    · rw [hx]
    · simp [hx]
  by_cases hm : m = []
  · subst hm
    rw [if_neg fun h => h.2 (List.prefix_nil.1 h.1).symm]
    rfl
  simp only [get?, emptied, List.isEmpty_iff, hm, if_false, List.find?_filter, Bool.decide_and,
    Bool.decide_eq_true, at_m]
  by_cases h : l <+: m ∧ m ≠ l
  · rw [if_pos h, List.isPrefixOf_iff_prefix.2 h.1]
    simp [h.2]
  · rw [if_neg h]
    have hb : (l.isPrefixOf m && decide (m ≠ l)) = false := by
      rw [← Bool.not_eq_true, Bool.and_eq_true, List.isPrefixOf_iff_prefix, decide_eq_true_iff]
      exact h
    rw [hb]
    simp

theorem get?_emptied_of_not_below {t : FileTree} {l m : Location} (h : ¬(l <+: m ∧ m ≠ l)) :
    (t.emptied l).get? m = t.get? m := by
  rw [get?_emptied, if_neg h]

theorem emptied_within_of {t u : FileTree} {l : Location} (hcwd : t.cwd = u.cwd)
    (h : ∀ m e, ¬(l <+: m ∧ m ≠ l) → t.get? m = some e → u.get? m = some e) :
    (t.emptied l).Within u := by
  refine ⟨hcwd, fun {m e} hm => ?_⟩
  rw [get?_emptied] at hm
  split at hm
  · cases hm
  · rename_i hbelow
    exact h m e hbelow hm

theorem emptied_within (t : FileTree) (l : Location) : (t.emptied l).Within t :=
  emptied_within_of rfl fun _ _ _ => id

theorem erase_within_of {t u : FileTree} {l : Location} (hcwd : t.cwd = u.cwd)
    (h : ∀ m e, ¬l <+: m → t.get? m = some e → u.get? m = some e) : (t.erase l).Within u := by
  refine ⟨hcwd, fun {m e} hm => ?_⟩
  by_cases hnil : m = []
  · subst hnil
    exact hm
  rw [get?_erase t l hnil] at hm
  split at hm
  · cases hm
  · rename_i hbelow
    exact h m e hbelow hm

theorem erase_within (t : FileTree) (l : Location) : (t.erase l).Within t :=
  erase_within_of rfl fun _ _ _ => id

theorem Within.erase {t u : FileTree} (h : t.Within u) (l : Location) :
    (t.erase l).Within (u.erase l) := by
  refine erase_within_of h.cwd_eq fun m e hbelow hm => ?_
  rw [get?_erase_of_not_below hbelow]
  exact h.get?_eq hm

end HouseRules.FileTree
