import HouseRules.Proofs.Fetch.Copying

/-! What is kept of a source: its directories but for some names, and in them the files, also those
that links lead to. A copying that goes through leaves that in the new directory and nothing else,
if it does not reach into what it copies and no link leads through it. -/

namespace HouseRules.Fetch

open FileTree

/-- What is kept of a directory at a location, which a path leads to, by the names on the way. -/
inductive Keeps (t : FileTree) : String → Location → List String → Entry → Prop
  | here {p d} : t.get? d = some .directory → Keeps t p d [] .directory
  | inside {p d name rel e} :
      t.get? (d ++ [name]) = some .directory → name ∉ skippedNames →
      Keeps t (Path.join p name) (d ++ [name]) rel e → Keeps t p d (name :: rel) e
  | file {p d name content executable} :
      t.get? (d ++ [name]) = some (.file content executable) →
      (Path.join p name).utf8ByteSize < pathLimit →
      Keeps t p d [name] (.file content executable)
  | linked {p d name target content executable} :
      t.get? (d ++ [name]) = some (.link target) →
      t.find? (Path.join p name) = some (.file content executable) →
      Keeps t p d [name] (.file content executable)

/-- A way on which no name but the last is left out. -/
def Passes (rel : List String) : Prop := ∀ name ∈ rel.dropLast, name ∉ skippedNames

/-- Links that would be kept do not lead to files through what stands below a location. -/
def LinksAvoid (t : FileTree) (p : String) (d s : Location) : Prop :=
  ∀ rel target content executable, Passes rel → t.get? (d ++ rel) = some (.link target) →
    t.find? (rel.foldl Path.join p) = some (.file content executable) →
    (t.emptied s).find? (rel.foldl Path.join p) = some (.file content executable)

/-- The ways on which something is kept do not get to a location. -/
def Apart (d s : Location) : Prop := ∀ rel, Passes rel → ¬s <+: d ++ rel

theorem Passes.singleton (name : String) : Passes [name] := by
  simp [Passes]

theorem Passes.cons {name : String} {rel : List String} (hname : name ∉ skippedNames)
    (h : Passes rel) : Passes (name :: rel) := by
  cases rel with
  | nil => exact Passes.singleton name
  | cons next rel => simpa [Passes, List.dropLast] using And.intro hname h

theorem LinksAvoid.inside {t : FileTree} {p name : String} {d s : Location}
    (h : LinksAvoid t p d s) (hname : name ∉ skippedNames) :
    LinksAvoid t (Path.join p name) (d ++ [name]) s := by
  intro rel target content executable hrel hlink hfile
  exact h (name :: rel) target content executable (hrel.cons hname) (by simpa using hlink) hfile

theorem Apart.inside {d s : Location} {name : String} (h : Apart d s)
    (hname : name ∉ skippedNames) : Apart (d ++ [name]) s := by
  intro rel hrel
  simpa using h (name :: rel) (hrel.cons hname)

section

variable {t u w : FileTree} {p name : String} {d l s : Location} {e entry : Entry}

/-! ### By the first name -/

theorem keeps_cons_of_directory {rel : List String} (h : w.get? (d ++ [name]) = some .directory) :
    Keeps w p d (name :: rel) e ↔
      name ∉ skippedNames ∧ Keeps w (Path.join p name) (d ++ [name]) rel e := by
  constructor
  · intro hkeeps
    cases hkeeps with
    | inside _ hname hrel => exact ⟨hname, hrel⟩
    | file hfile => simp [h] at hfile
    | linked hlink => simp [h] at hlink
  · rintro ⟨hname, hrel⟩
    exact .inside h hname hrel

theorem keeps_cons_of_file {rel : List String} {content : List UInt8} {executable : Bool}
    (h : w.get? (d ++ [name]) = some (.file content executable)) :
    Keeps w p d (name :: rel) e ↔
      rel = [] ∧ (Path.join p name).utf8ByteSize < pathLimit ∧ e = .file content executable := by
  constructor
  · intro hkeeps
    cases hkeeps with
    | inside hdir => simp [h] at hdir
    | file hfile hsize =>
      rw [h] at hfile
      cases hfile
      exact ⟨rfl, hsize, rfl⟩
    | linked hlink => simp [h] at hlink
  · rintro ⟨rfl, hsize, rfl⟩
    exact .file h hsize

theorem keeps_cons_of_link {rel : List String} {target : String}
    (h : w.get? (d ++ [name]) = some (.link target)) :
    Keeps w p d (name :: rel) e ↔
      rel = [] ∧ w.find? (Path.join p name) = some e ∧ e ≠ .directory ∧ ∀ target, e ≠ .link target := by
  constructor
  · intro hkeeps
    cases hkeeps with
    | inside hdir => simp [h] at hdir
    | file hfile => simp [h] at hfile
    | linked _ hfile => exact ⟨rfl, hfile, by simp, by simp⟩
  · rintro ⟨rfl, hfind, hdir, hlink⟩
    cases e with
    | directory => exact absurd rfl hdir
    | file => exact .linked h hfind
    | link target => exact absurd rfl (hlink target)

theorem exists_get?_of_keeps {rel : List String} (h : Keeps w p d (name :: rel) e) :
    ∃ entry, w.get? (d ++ [name]) = some entry := by
  cases h with
  | inside hdir => exact ⟨_, hdir⟩
  | file hfile => exact ⟨_, hfile⟩
  | linked hlink => exact ⟨_, hlink⟩

/-! ### While copying -/

/-- A directory that is copied into `s`, in a tree on the way to `w`: only what is in `s` may
change, and neither the directory nor its links have to do with that. -/
structure Sees (w t : FileTree) (p : String) (d s : Location) : Prop where
  leads : t.Leads p d
  stored : t.get? s = some .directory
  agrees : ∀ m, ¬s <+: m → t.get? m = w.get? m
  apart : Apart d s
  links : LinksAvoid w p d s

namespace Sees

theorem get?_eq (h : Sees w t p d s) {rel : List String} (hrel : Passes rel) :
    t.get? (d ++ rel) = w.get? (d ++ rel) :=
  h.agrees _ (h.apart rel hrel)

theorem get?_concat_eq (h : Sees w t p d s) (name : String) :
    t.get? (d ++ [name]) = w.get? (d ++ [name]) :=
  h.get?_eq (Passes.singleton name)

/-- Growth in `s` changes nothing of it. -/
theorem of_grown (h : Sees w t p d s) {names : List String} (g : Grown t u l names)
    (hs : s <+: l) : Sees w u p d s where
  leads := g.within.leads h.leads
  stored := g.within.get?_eq h.stored
  agrees m hm := by
    rw [g.get?_eq m, h.agrees m hm]
    intro name _ hprefix
    exact hm ((hs.trans (List.prefix_append l [name])).trans hprefix)
  apart := h.apart
  links := h.links

theorem inside (h : Sees w t p d s) (hname : IsName name) (hkeep : name ∉ skippedNames)
    (hsize : (Path.join p name).utf8ByteSize < pathLimit)
    (hdir : t.get? (d ++ [name]) = some .directory) :
    Sees w t (Path.join p name) (d ++ [name]) s where
  leads := h.leads.join hname hsize hdir
  stored := h.stored
  agrees := h.agrees
  apart := h.apart.inside hkeep
  links := h.links.inside hkeep

/-- A link shows the same file while it is copied as in the end. -/
theorem find?_eq_file_iff (h : Sees w t p d s) (htw : t.Within w) {target : String}
    (hlink : w.get? (d ++ [name]) = some (.link target)) {content : List UInt8}
    {executable : Bool} :
    t.find? (Path.join p name) = some (.file content executable) ↔
      w.find? (Path.join p name) = some (.file content executable) := by
  have emptied : (w.emptied s).Within t := by
    refine emptied_within_of htw.cwd_eq.symm fun m e hm hget => ?_
    by_cases hsm : s <+: m
    · obtain rfl : m = s := by_contra fun hne => hm ⟨hsm, hne⟩
      rw [htw.get?_eq h.stored] at hget
      exact h.stored.trans hget
    · rw [h.agrees m hsm, hget]
  constructor
  · exact htw.find?_eq
  · intro hfile
    exact emptied.find?_eq (h.links [name] target content executable (Passes.singleton name)
      hlink hfile)

/-- What is no directory is kept as the file that is shown for it while it is copied. -/
theorem keeps_cons_iff (h : Sees w t p d s) (htw : t.Within w) (hname : IsName name)
    (hentry : w.get? (d ++ [name]) = some entry) (hne : entry ≠ .directory) {rel : List String} :
    Keeps w p d (name :: rel) e ↔
      rel = [] ∧ t.find? (Path.join p name) = some e ∧ e ≠ .directory ∧ ∀ target, e ≠ .link target := by
  cases entry with
  | directory => exact absurd rfl hne
  | file content executable =>
    have ht := (h.get?_concat_eq name).trans hentry
    rw [keeps_cons_of_file hentry, h.leads.find?_join hname (by simp [ht]), ht]
    refine and_congr_right fun _ => ?_
    split
    · rename_i hsize
      constructor
      · rintro ⟨-, rfl⟩
        simp
      · rintro ⟨heq, -⟩
        exact ⟨hsize, (Option.some.inj heq).symm⟩
    · rename_i hsize
      simp [hsize]
  | link target =>
    rw [keeps_cons_of_link hentry]
    refine and_congr_right fun _ => and_congr_left fun ⟨hdir, hlink⟩ => ?_
    cases e with
    | directory => exact absurd rfl hdir
    | file => exact (h.find?_eq_file_iff htw hentry).symm
    | link target => exact absurd rfl (hlink target)

end Sees

variable {target : String} {listed : List (String × Entry)} {names : List String}

/-- What is kept of a directory is kept under the names that are listed there. -/
theorem get?_iff_of_listed {v : FileTree} (wf : t.WellFormed) (sees : Sees w t p d s)
    (ready : Ready v target l (t.listing d)) (free : ∀ name, v.get? (l ++ [name]) = none)
    (g : Grown v u l ((t.listing d).map Prod.fst))
    (h : ∀ x ∈ t.listing d, ∀ rel e,
      u.get? (l ++ x.1 :: rel) = some e ↔ Keeps w p d (x.1 :: rel) e)
    (name : String) (rel : List String) (e : Entry) :
    u.get? (l ++ name :: rel) = some e ↔ Keeps w p d (name :: rel) e := by
  by_cases hlisted : name ∈ (t.listing d).map Prod.fst
  · obtain ⟨x, hx, rfl⟩ := List.mem_map.1 hlisted
    exact h x hx rel e
  · have hmissing : u.get? (l ++ name :: rel) = none := by
      rw [g.get?_eq]
      · by_cases hrel : rel = []
        · rw [hrel]
          exact free name
        · rw [List.append_cons]
          exact ready.wellFormed.get?_append_eq_none hrel (by simp [free name])
      · intro other hother
        refine not_prefix_of_ne ?_ rel
        rintro rfl
        exact hlisted hother
    rw [hmissing]
    constructor
    · intro hnone
      cases hnone
    · intro hkeeps
      obtain ⟨entry, hentry⟩ := exists_get?_of_keeps hkeeps
      rw [← sees.get?_concat_eq] at hentry
      exact absurd (List.mem_map.2 ⟨(name, entry), wf.mem_listing.2 hentry, rfl⟩) hlisted

/-- What came under the first name stays while the others follow. -/
theorem Ready.get?_of_rest {v : FileTree} {rest : List (String × Entry)}
    (h : Ready t target l ((name, entry) :: rest)) (g : Grown v u l (rest.map Prod.fst))
    (rel : List String) : u.get? (l ++ name :: rel) = v.get? (l ++ name :: rel) := by
  refine g.get?_eq _ fun other hother => ?_
  refine not_prefix_of_ne ?_ rel
  rintro rfl
  exact (List.nodup_cons.1 h.nodup).1 hother

theorem Ready.get?_head {rest : List (String × Entry)}
    (h : Ready t target l ((name, entry) :: rest)) (rel : List String) :
    t.get? (l ++ name :: rel) = none := by
  rw [List.append_cons]
  by_cases hrel : rel = []
  · rw [hrel, List.append_nil]
    exact h.free_head
  · exact h.wellFormed.get?_append_eq_none hrel (by simp [h.free_head])

/-- A directory holds what is kept of it once it holds what is kept under the names listed there. -/
theorem get?_iff_of_directory {v : FileTree} {rest : List (String × Entry)} (hkeep : name ∉ skippedNames)
    (hdir : w.get? (d ++ [name]) = some .directory)
    (ready : Ready t target l ((name, entry) :: rest))
    (inside : Ready (t.set (l ++ [name]) .directory) (Path.join target name) (l ++ [name])
      (t.listing (d ++ [name])))
    (sees : Sees w t (Path.join p name) (d ++ [name]) s)
    (g : Grown (t.set (l ++ [name]) .directory) v (l ++ [name])
      ((t.listing (d ++ [name])).map Prod.fst))
    (h : ∀ x ∈ t.listing (d ++ [name]), ∀ rel e, v.get? (l ++ [name] ++ x.1 :: rel) = some e ↔
      Keeps w (Path.join p name) (d ++ [name]) (x.1 :: rel) e) (rel : List String) (e : Entry) :
    v.get? (l ++ name :: rel) = some e ↔ Keeps w p d (name :: rel) e := by
  rw [keeps_cons_of_directory hdir, and_iff_right hkeep]
  cases rel with
  | nil =>
    rw [g.within.get?_eq (get?_set_self t (by simp) _)]
    constructor
    · intro heq
      cases heq
      exact .here hdir
    · intro hkeeps
      cases hkeeps
      rfl
  | cons next rel =>
    have free (other : String) :=
      get?_set_append_of_free ready.wellFormed ready.free_head .directory
        (List.cons_ne_nil other [])
    rw [List.append_cons]
    exact get?_iff_of_listed ready.wellFormed sees inside free g h next rel e

/-- Under each name that was listed, a copying leaves what is kept. -/
theorem Copies.get?_iff {room : Nat} (h : Copies room t p target l listed u)
    (ready : Ready t target l listed) (hroom : target.utf8ByteSize + room < pathLimit)
    (sees : Sees w t p d s) (hs : s <+: l) (huw : u.Within w)
    (hlisted : ∀ x ∈ listed, w.get? (d ++ [x.1]) = some x.2) :
    ∀ x ∈ listed, ∀ rel e, u.get? (l ++ x.1 :: rel) = some e ↔ Keeps w p d (x.1 :: rel) e := by
  induction h generalizing d with
  | nil => exact fun x hx => absurd hx List.not_mem_nil
  | @skip room t p target l name rest u hskip copies ih =>
    obtain ⟨hdir, hrest⟩ := List.forall_mem_cons.1 hlisted
    refine List.forall_mem_cons.2 ⟨fun rel e => ?_, ih ready.tail hroom sees hs huw hrest⟩
    rw [ready.get?_of_rest (copies.grown ready.tail hroom), ready.get?_head,
      keeps_cons_of_directory hdir]
    simp [hskip]
  | @directory room t p target l name inside v rest u hkeep fits hinside copies copies' ihInside
      ihRest =>
    obtain ⟨hdir, hrest⟩ := List.forall_mem_cons.1 hlisted
    obtain ⟨hsize, hroom'⟩ := utf8ByteSize_join_lt ready.isName_head hroom fits
    have ready' := ready.within_directory hsize hinside
    have made := ready.grown_set .directory
    have inner := copies.grown ready' hroom'
    have grown := copies.grown_directory ready hroom fits hinside
    have outer := copies'.grown (ready.tail_of_grown grown) hroom
    have sees' : Sees w t (Path.join p name) (d ++ [name]) s :=
      sees.inside ready.isName_head hkeep (size_lt_of_listing? hinside)
        ((sees.get?_concat_eq name).trans hdir)
    rw [listing?_of_leads sees'.leads] at hinside
    cases hinside
    refine List.forall_mem_cons.2 ⟨fun rel e => ?_,
      ihRest (ready.tail_of_grown grown) hroom (sees.of_grown grown hs) hs huw hrest⟩
    rw [ready.get?_of_rest outer]
    refine get?_iff_of_directory hkeep hdir ready ready' sees' inner
      (ihInside ready' hroom' (sees'.of_grown made hs) (hs.trans (List.prefix_append l [name]))
        (outer.within.trans huw) fun x hx => ?_) rel e
    rw [← sees'.get?_concat_eq]
    exact ready.wellFormed.mem_listing.1 hx
  | @file room t p target l name entry content executable rest u hentry hsize hfile copies ih =>
    obtain ⟨hw, hrest⟩ := List.forall_mem_cons.1 hlisted
    have made := ready.grown_set (.file content executable)
    have outer := copies.grown (ready.tail_of_grown made) hroom
    refine List.forall_mem_cons.2 ⟨fun rel e => ?_,
      ih (ready.tail_of_grown made) hroom (sees.of_grown made hs) hs huw hrest⟩
    rw [ready.get?_of_rest outer,
      sees.keeps_cons_iff ((made.within.trans outer.within).trans huw) ready.isName_head hw hentry,
      hfile]
    cases rel with
    | nil =>
      rw [get?_set_self t (by simp)]
      constructor
      · intro heq
        cases heq
        simp
      · exact fun h => h.2.1
    | cons next rel =>
      rw [get?_set_of_ne t (by simp), ready.get?_head]
      simp
  | @leave room t p target l name entry rest u hentry hleave copies ih =>
    obtain ⟨hw, hrest⟩ := List.forall_mem_cons.1 hlisted
    have outer := copies.grown ready.tail hroom
    refine List.forall_mem_cons.2 ⟨fun rel e => ?_, ih ready.tail hroom sees hs huw hrest⟩
    rw [ready.get?_of_rest outer, ready.get?_head,
      sees.keeps_cons_iff (outer.within.trans huw) ready.isName_head hw hentry]
    refine ⟨fun hnone => (by cases hnone), fun ⟨_, hfind, hdir, hlink⟩ => ?_⟩
    cases e with
    | directory => exact absurd rfl hdir
    | file content executable => exact absurd hfind (hleave content executable)
    | link target => exact absurd rfl (hlink target)

end

/-! ### Storages that hold what is kept -/

/-- A storage that holds what is kept of a source, by paths that are short enough. -/
structure Mirrors (t : FileTree) (origin : String) (d : Location) (storage : String)
    (s : Location) : Prop where
  leads : t.Leads storage s
  get?_iff : ∀ rel e, t.get? (s ++ rel) = some e ↔ Keeps t origin d rel e
  size_lt : ∀ rel e, t.get? (s ++ rel) = some e →
    (rel.foldl Path.join storage).utf8ByteSize < pathLimit

namespace Keeps

variable {t : FileTree} {p name target : String} {d : Location} {e : Entry} {rel : List String}

theorem ne_link (h : Keeps t p d rel e) (target : String) : e ≠ .link target := by
  induction h with
  | here | file | linked => simp
  | inside _ _ _ ih => exact ih

theorem directory_iff :
    Keeps t p d [name] .directory ↔ t.get? (d ++ [name]) = some .directory ∧ name ∉ skippedNames := by
  constructor
  · intro h
    cases h with
    | inside hdir hname _ => exact ⟨hdir, hname⟩
  · rintro ⟨hdir, hname⟩
    exact .inside hdir hname (.here hdir)

theorem file_iff {content : List UInt8} {executable : Bool} (leads : t.Leads p d)
    (hname : IsName name) : Keeps t p d [name] (.file content executable) ↔
      t.find? (Path.join p name) = some (.file content executable) := by
  by_cases hlink : ∃ target, t.get? (d ++ [name]) = some (.link target)
  · obtain ⟨target, hlink⟩ := hlink
    rw [keeps_cons_of_link hlink]
    simp
  rw [leads.find?_join hname fun target h => hlink ⟨target, h⟩]
  constructor
  · intro h
    cases h with
    | inside _ _ h => cases h
    | file hfile hsize => rw [if_pos hsize, hfile]
    | linked h => exact absurd ⟨_, h⟩ hlink
  · intro h
    split at h
    · rename_i hsize
      exact .file h hsize
    · cases h

/-- The path of a file that is kept is short enough. -/
theorem size_lt {content : List UInt8} {executable : Bool}
    (h : Keeps t p d [name] (.file content executable)) :
    (Path.join p name).utf8ByteSize < pathLimit := by
  cases h with
  | inside _ _ h => cases h
  | file _ hsize => exact hsize
  | linked _ hfile =>
    obtain ⟨m, hm, -⟩ := Option.bind_eq_some_iff.1 hfile
    exact (of_locate hm).2

end Keeps

namespace Mirrors

variable {t : FileTree} {origin storage name : String} {d s : Location}

theorem inside (h : Mirrors t origin d storage s) (hname : IsName name)
    (hdir : t.get? (d ++ [name]) = some .directory) (hkeep : name ∉ skippedNames) :
    Mirrors t (Path.join origin name) (d ++ [name]) (Path.join storage name) (s ++ [name]) := by
  have stored := (h.get?_iff [name] .directory).2 (Keeps.directory_iff.2 ⟨hdir, hkeep⟩)
  refine ⟨h.leads.join hname (h.size_lt [name] _ stored) stored, fun rel e => ?_, fun rel e he => ?_⟩
  · rw [← List.append_cons, h.get?_iff, keeps_cons_of_directory hdir, and_iff_right hkeep]
  · exact h.size_lt (name :: rel) e (by rwa [List.append_cons])

theorem get?_ne_link (h : Mirrors t origin d storage s) (rel : List String) (target : String) :
    t.get? (s ++ rel) ≠ some (.link target) := fun link =>
  ((h.get?_iff rel _).1 link).ne_link target rfl

theorem find?_join (h : Mirrors t origin d storage s) (hname : IsName name) :
    t.find? (Path.join storage name) = t.get? (s ++ [name]) := by
  rw [h.leads.find?_join hname (h.get?_ne_link [name])]
  split
  · rfl
  · rename_i hsize
    rcases hget : t.get? (s ++ [name]) with _ | e
    · rfl
    · exact absurd (h.size_lt [name] e hget) hsize

/-- A storage shows the files that its source shows. -/
theorem find?_eq_file_iff (h : Mirrors t origin d storage s) (leads : t.Leads origin d)
    (hname : IsName name) {content : List UInt8} {executable : Bool} :
    t.find? (Path.join storage name) = some (.file content executable) ↔
      t.find? (Path.join origin name) = some (.file content executable) := by
  rw [h.find?_join hname, h.get?_iff, Keeps.file_iff leads hname]

end Mirrors

end HouseRules.Fetch
