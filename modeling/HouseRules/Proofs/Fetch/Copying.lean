import HouseRules.Fetch
import HouseRules.Proofs.FileTree.Creation

/-! Copying as a relation between file trees: what was listed in a directory is copied to another
one in steps, each of which takes a free name there. A copying that goes through is the one that
the relation describes, and it adds entries under the names of what was listed and nothing else. -/

namespace HouseRules.Fetch

open FileTree

/-! ### Steps of copying -/

/-- What was listed in the directory with the path `origin` is copied to the path `target`, which
leads to the location `l`; paths of copies have room for some bytes of further names. -/
inductive Copies : Nat → FileTree → String → String → Location → List (String × Entry) →
    FileTree → Prop
  | nil {room t origin target l} : Copies room t origin target l [] t
  | skip {room t origin target l name rest u} :
      name ∈ skippedNames → Copies room t origin target l rest u →
      Copies room t origin target l ((name, .directory) :: rest) u
  | directory {room t origin target l name inside v rest u} :
      name ∉ skippedNames → name.utf8ByteSize + 1 ≤ room →
      t.listing? (Path.join origin name) = some inside →
      Copies (room - (name.utf8ByteSize + 1)) (t.set (l ++ [name]) .directory)
        (Path.join origin name) (Path.join target name) (l ++ [name]) inside v →
      Copies room v origin target l rest u →
      Copies room t origin target l ((name, .directory) :: rest) u
  | file {room t origin target l name entry content executable rest u} :
      entry ≠ .directory → (Path.join target name).utf8ByteSize < pathLimit →
      t.find? (Path.join origin name) = some (.file content executable) →
      Copies room (t.set (l ++ [name]) (.file content executable)) origin target l rest u →
      Copies room t origin target l ((name, entry) :: rest) u
  | leave {room t origin target l name entry rest u} :
      entry ≠ .directory →
      (∀ content executable,
        t.find? (Path.join origin name) ≠ some (.file content executable)) →
      Copies room t origin target l rest u →
      Copies room t origin target l ((name, entry) :: rest) u

/-- A directory that a path leads to and where the names of what was listed are free. -/
structure Ready (t : FileTree) (target : String) (l : Location) (listed : List (String × Entry)) :
    Prop where
  wellFormed : t.WellFormed
  leads : t.Leads target l
  isName : ∀ x ∈ listed, IsName x.1
  nodup : (listed.map Prod.fst).Nodup
  free : ∀ x ∈ listed, t.get? (l ++ [x.1]) = none

/-- A tree that has more under some names in a directory. -/
structure Grown (t u : FileTree) (l : Location) (names : List String) : Prop where
  wellFormed : u.WellFormed
  within : t.Within u
  get?_eq : ∀ m, (∀ name ∈ names, ¬l ++ [name] <+: m) → u.get? m = t.get? m

section

variable {t u v : FileTree} {origin target name : String} {l m : Location} {entry : Entry}
  {listed rest inside : List (String × Entry)} {room : Nat} {names : List String}

theorem not_prefix_of_ne {name other : String} (h : name ≠ other) (rel : Location) :
    ¬l ++ [name] <+: l ++ other :: rel := by
  rw [List.prefix_append_right_inj]
  simpa [List.cons_prefix_cons] using h

namespace Grown

theorem refl (wf : t.WellFormed) (l : Location) (names : List String) : Grown t t l names :=
  ⟨wf, Within.refl t, fun _ _ => rfl⟩

theorem trans (h : Grown t u l names) (h' : Grown u v l names) : Grown t v l names :=
  ⟨h'.wellFormed, h.within.trans h'.within, fun m hm => (h'.get?_eq m hm).trans (h.get?_eq m hm)⟩

theorem mono {names' : List String} (h : Grown t u l names) (sub : names ⊆ names') :
    Grown t u l names' :=
  ⟨h.wellFormed, h.within, fun m hm => h.get?_eq m fun name hname => hm name (sub hname)⟩

/-- What grows in a directory of a directory grows under its name. -/
theorem lift (h : Grown t u (l ++ [name]) names) : Grown t u l [name] := by
  refine ⟨h.wellFormed, h.within, fun m hm => h.get?_eq m fun inner _ hinner => ?_⟩
  exact hm name List.mem_cons_self ((List.prefix_append _ _).trans hinner)

theorem set (wf : t.WellFormed) (hname : IsName name) (hl : t.get? l = some .directory)
    (hfree : t.get? (l ++ [name]) = none) (e : Entry) :
    Grown t (t.set (l ++ [name]) e) l [name] := by
  refine ⟨wf.set hname hl (by simp [hfree]) e, within_set (by simp) hfree e, fun m hm => ?_⟩
  rw [get?_set t (by simp), if_neg]
  rintro rfl
  exact hm name List.mem_cons_self List.prefix_rfl

end Grown

namespace Ready

theorem tail (h : Ready t target l ((name, entry) :: rest)) : Ready t target l rest where
  wellFormed := h.wellFormed
  leads := h.leads
  isName x hx := h.isName x (List.mem_cons_of_mem _ hx)
  nodup := (List.nodup_cons.1 h.nodup).2
  free x hx := h.free x (List.mem_cons_of_mem _ hx)

theorem isName_head (h : Ready t target l ((name, entry) :: rest)) : IsName name :=
  h.isName _ List.mem_cons_self

theorem free_head (h : Ready t target l ((name, entry) :: rest)) : t.get? (l ++ [name]) = none :=
  h.free _ List.mem_cons_self

theorem grown_set (h : Ready t target l ((name, entry) :: rest)) (e : Entry) :
    Grown t (t.set (l ++ [name]) e) l [name] :=
  Grown.set h.wellFormed h.isName_head h.leads.2 h.free_head e

/-- After growth under the first name the others are still free. -/
theorem tail_of_grown (h : Ready t target l ((name, entry) :: rest)) (g : Grown t u l [name]) :
    Ready u target l rest where
  wellFormed := g.wellFormed
  leads := g.within.leads h.leads
  isName := h.tail.isName
  nodup := h.tail.nodup
  free x hx := by
    rw [g.get?_eq, h.tail.free x hx]
    intro other hother
    rw [List.mem_singleton.1 hother]
    have hne : name ≠ x.1 := by
      rintro rfl
      exact (List.nodup_cons.1 h.nodup).1 (List.mem_map.2 ⟨x, hx, rfl⟩)
    exact not_prefix_of_ne hne []

end Ready

theorem listing?_names (wf : t.WellFormed) {p : String} (h : t.listing? p = some inside) :
    (∀ x ∈ inside, IsName x.1) ∧ (inside.map Prod.fst).Nodup := by
  rw [FileTree.listing?] at h
  split at h
  · cases h
  · rename_i m hm
    split at h
    · cases h
    · cases h
      refine ⟨fun x hx => ?_, ?_⟩
      · exact wf.isName_of_get? (wf.mem_listing.1 hx) (by simp)
      · rw [List.nodup_iff_pairwise_ne, List.pairwise_map]
        exact (wf.pairwise_listing m).imp fun hlt => ne_of_lt hlt
    · cases h
      exact ⟨fun x hx => absurd hx List.not_mem_nil, List.nodup_nil⟩

/-- A directory that was made for copies is ready for what it is to hold. -/
theorem Ready.within_directory (h : Ready t target l ((name, entry) :: rest))
    (hsize : (Path.join target name).utf8ByteSize < pathLimit)
    (hinside : t.listing? (Path.join origin name) = some inside) :
    Ready (t.set (l ++ [name]) .directory) (Path.join target name) (l ++ [name]) inside := by
  have g := h.grown_set .directory
  obtain ⟨hnames, hnodup⟩ := listing?_names h.wellFormed hinside
  refine ⟨g.wellFormed, ?_, hnames, hnodup, fun x _ => ?_⟩
  · exact (g.within.leads h.leads).join h.isName_head hsize (get?_set_self t (by simp) _)
  · exact get?_set_append_of_free h.wellFormed h.free_head _ (List.cons_ne_nil x.1 [])

/-! ### Room -/

theorem utf8ByteSize_join_lt (hname : IsName name)
    (hroom : target.utf8ByteSize + room < pathLimit) (fits : name.utf8ByteSize + 1 ≤ room) :
    (Path.join target name).utf8ByteSize < pathLimit ∧
      (Path.join target name).utf8ByteSize + (room - (name.utf8ByteSize + 1)) < pathLimit := by
  have := hname.utf8ByteSize_join_le target
  omega

/-! ### Complete copying -/

/-- Copying adds entries under the names of what was listed only. -/
theorem Copies.grown (h : Copies room t origin target l listed u) (ready : Ready t target l listed)
    (hroom : target.utf8ByteSize + room < pathLimit) : Grown t u l (listed.map Prod.fst) := by
  induction h with
  | nil => exact Grown.refl ready.wellFormed _ _
  | skip _ _ ih => exact (ih ready.tail hroom).mono (List.subset_cons_self _ _)
  | directory _ fits hinside _ _ ihInside ihRest =>
    obtain ⟨hsize, hroom'⟩ := utf8ByteSize_join_lt ready.isName_head hroom fits
    have g := (ready.grown_set .directory).trans
      (ihInside (ready.within_directory hsize hinside) hroom').lift
    exact (g.mono (by simp)).trans
      ((ihRest (ready.tail_of_grown g) hroom).mono (List.subset_cons_self _ _))
  | file _ _ _ _ ih =>
    exact ((ready.grown_set _).mono (by simp)).trans
      ((ih (ready.tail_of_grown (ready.grown_set _)) hroom).mono (List.subset_cons_self _ _))
  | leave _ _ _ ih => exact (ih ready.tail hroom).mono (List.subset_cons_self _ _)

/-- A directory with its copies adds entries under its own name only. -/
theorem Copies.grown_directory
    (h : Copies (room - (name.utf8ByteSize + 1)) (t.set (l ++ [name]) .directory)
      (Path.join origin name) (Path.join target name) (l ++ [name]) inside v)
    (ready : Ready t target l ((name, entry) :: rest))
    (hroom : target.utf8ByteSize + room < pathLimit) (fits : name.utf8ByteSize + 1 ≤ room)
    (hinside : t.listing? (Path.join origin name) = some inside) : Grown t v l [name] := by
  obtain ⟨hsize, hroom'⟩ := utf8ByteSize_join_lt ready.isName_head hroom fits
  have inner := h.grown (ready.within_directory hsize hinside) hroom'
  exact (ready.grown_set .directory).trans inner.lift

/-- What copying adds has paths that are short enough. -/
theorem Copies.size_lt (h : Copies room t origin target l listed u) (ready : Ready t target l listed)
    (hroom : target.utf8ByteSize + room < pathLimit) {rel : Location} {e : Entry}
    (hnew : t.get? (l ++ rel) = none) (he : u.get? (l ++ rel) = some e) :
    (rel.foldl Path.join target).utf8ByteSize < pathLimit := by
  induction h generalizing rel e with
  | nil =>
    rw [hnew] at he
    cases he
  | skip _ _ ih => exact ih ready.tail hroom hnew he
  | @directory room t origin target l name inside v rest u _ fits hinside hcopies _ ihInside ihRest =>
    obtain ⟨hsize, hroom'⟩ := utf8ByteSize_join_lt ready.isName_head hroom fits
    have ready' := ready.within_directory hsize hinside
    have inner := hcopies.grown ready' hroom'
    rcases hv : v.get? (l ++ rel) with _ | e'
    · have g := hcopies.grown_directory ready hroom fits hinside
      exact ihRest (ready.tail_of_grown g) hroom hv he
    -- it stands in the directory that was made first
    by_cases hbelow : l ++ [name] <+: l ++ rel
    · obtain ⟨rel, rfl⟩ := (List.prefix_append_right_inj l).1 hbelow
      rw [← List.append_assoc] at hnew hv
      by_cases hrel : rel = []
      · subst hrel
        exact hsize
      · refine ihInside ready' hroom' ?_ hv
        exact get?_set_append_of_free ready.wellFormed ready.free_head _ hrel
    · rw [inner.lift.get?_eq _ (by simpa using hbelow), get?_set t (by simp), if_neg, hnew] at hv
      · cases hv
      · exact fun same => hbelow (same ▸ List.prefix_rfl)
  | @file room t origin target l name entry content executable rest u _ hsize _ _ ih =>
    by_cases hrel : rel = [name]
    · subst hrel
      exact hsize
    · refine ih (ready.tail_of_grown (ready.grown_set _)) hroom ?_ he
      rw [get?_set t (by simp), if_neg (by simpa using hrel), hnew]
  | leave _ _ _ ih => exact ih ready.tail hroom hnew he

theorem copyListed_cons_of_directory (source : String) (room : Nat) (t : FileTree)
    (origin target name : String) (rest : List (String × Entry)) :
    copyListed source room t origin target ((name, .directory) :: rest) =
      if skippedNames.contains name then copyListed source room t origin target rest
      else if name.utf8ByteSize + 1 ≤ room then
        match t.ensureDirectory (Path.join target name) with
        | none => ⟨t, some (cannotCreate (Path.join target name))⟩
        | some made =>
          match t.listing? (Path.join origin name) with
          | none => ⟨made, some (cannotWalk source)⟩
          | some inside =>
            let copied := copyListed source (room - (name.utf8ByteSize + 1)) made
              (Path.join origin name) (Path.join target name) inside
            if copied.failure.isSome then copied
            else copyListed source room copied.tree origin target rest
      else ⟨t, some (cannotCreate (Path.join target name))⟩ := by
  rw [copyListed.eq_def]
  rfl

theorem copyListed_cons_of_ne (source : String) (room : Nat) (t : FileTree)
    (origin target name : String) (hentry : entry ≠ .directory) (rest : List (String × Entry)) :
    copyListed source room t origin target ((name, entry) :: rest) =
      match t.find? (Path.join origin name) with
      | some (.file content executable) =>
        match t.copyTo? (Path.join target name) content executable with
        | none => ⟨t, some (cannotCopy (Path.join origin name))⟩
        | some t => copyListed source room t origin target rest
      | _ => copyListed source room t origin target rest := by
  cases entry with
  | directory => exact absurd rfl hentry
  | file | link => exact copyListed.eq_def ..

theorem copyListed_eq_of_copies {source : String} (h : Copies room t origin target l listed u)
    (ready : Ready t target l listed) (hroom : target.utf8ByteSize + room < pathLimit) :
    copyListed source room t origin target listed = ⟨u, none⟩ := by
  induction h with
  | nil => rw [copyListed.eq_def]
  | skip hskip _ ih =>
    rw [copyListed_cons_of_directory, if_pos (by simpa using hskip)]
    exact ih ready.tail hroom
  | directory hkeep fits hinside hcopies _ ihInside ihRest =>
    obtain ⟨hsize, hroom'⟩ := utf8ByteSize_join_lt ready.isName_head hroom fits
    have ready' := ready.within_directory hsize hinside
    have g := hcopies.grown_directory ready hroom fits hinside
    have made := (ensureDirectory_join ready.leads ready.isName_head ready.free_head).2 ⟨hsize, rfl⟩
    rw [copyListed_cons_of_directory, if_neg (by simpa using hkeep), if_pos fits, made]
    simp only [hinside, ihInside ready' hroom', Option.isSome_none, Bool.false_eq_true, if_false]
    exact ihRest (ready.tail_of_grown g) hroom
  | file hentry hsize hfile _ ih =>
    rw [copyListed_cons_of_ne _ _ _ _ _ _ hentry, hfile]
    simp only [copyTo?_join ready.leads ready.isName_head ready.free_head, if_pos hsize]
    exact ih (ready.tail_of_grown (ready.grown_set _)) hroom
  | leave hentry hleave _ ih =>
    rw [copyListed_cons_of_ne _ _ _ _ _ _ hentry]
    split
    · rename_i hfile
      exact absurd hfile (hleave _ _)
    · exact ih ready.tail hroom

theorem copies_of_copyListed {source : String}
    (h : copyListed source room t origin target listed = ⟨u, none⟩)
    (ready : Ready t target l listed) (hroom : target.utf8ByteSize + room < pathLimit) :
    Copies room t origin target l listed u := by
  fun_induction copyListed source room t origin target listed generalizing l u with
  | case1 =>
    cases h
    exact .nil
  | case2 room t origin target name rest hskip ih =>
    exact .skip (by simpa using hskip) (ih h ready.tail hroom)
  | case3 => cases h
  | case4 => cases h
  | case5 =>
    rename_i failed _
    rw [h] at failed
    cases failed
  | case6 =>
    rename_i room t origin target name rest path copy hkeep fits made hmade inside hinside copied
      complete ihInside _ ihRest
    obtain ⟨hsize, hroom'⟩ := utf8ByteSize_join_lt ready.isName_head hroom fits
    obtain ⟨-, rfl⟩ := (ensureDirectory_join ready.leads ready.isName_head ready.free_head).1 hmade
    have ready' := ready.within_directory hsize hinside
    have copies := ihInside (u := copied.tree) (congrArg (Copied.mk copied.tree)
      (by simpa using complete)) ready' hroom'
    have g := copies.grown_directory ready hroom fits hinside
    exact .directory (by simpa using hkeep) fits hinside copies
      (ihRest h (ready.tail_of_grown g) hroom)
  | case7 => cases h
  | case8 => cases h
  | case9 =>
    rename_i room t origin target name entry rest path copy content executable hfile made hmade
      hentry ih
    rw [copyTo?_join ready.leads ready.isName_head ready.free_head] at hmade
    split at hmade
    · rename_i hsize
      cases hmade
      exact .file hentry hsize hfile (ih h (ready.tail_of_grown (ready.grown_set _)) hroom)
    · cases hmade
  | case10 =>
    rename_i hentry hleave ih
    exact .leave hentry hleave (ih h ready.tail hroom)

/-! ### Same trees -/

theorem Ready.same (h : Ready t target l listed) (same : t.Same u) (wf : u.WellFormed) :
    Ready u target l listed :=
  ⟨wf, same.leads h.leads, h.isName, h.nodup, fun x hx => (same.get?_eq _).symm.trans (h.free x hx)⟩

/-- Copying in the same tree gives the same tree. -/
theorem Copies.same {t' : FileTree} (h : Copies room t origin target l listed u)
    (same : t.Same t') (wf : t'.WellFormed) (ready : Ready t target l listed)
    (hroom : target.utf8ByteSize + room < pathLimit) :
    ∃ u', Copies room t' origin target l listed u' ∧ u.Same u' := by
  induction h generalizing t' with
  | nil => exact ⟨t', .nil, same⟩
  | skip hskip _ ih =>
    obtain ⟨u', copies, same'⟩ := ih same wf ready.tail hroom
    exact ⟨u', .skip hskip copies, same'⟩
  | directory hkeep fits hinside hcopies _ ihInside ihRest =>
    obtain ⟨hsize, hroom'⟩ := utf8ByteSize_join_lt ready.isName_head hroom fits
    have ready' := ready.same same wf
    have hinside' := (same.listing?_eq ready.wellFormed wf _).symm.trans hinside
    have g := hcopies.grown_directory ready hroom fits hinside
    obtain ⟨v', copies, same'⟩ := ihInside (same.set _ _) (ready'.grown_set _).wellFormed
      (ready.within_directory hsize hinside) hroom'
    have g' := copies.grown (ready'.within_directory hsize hinside') hroom'
    obtain ⟨u', copies', same''⟩ := ihRest same' g'.wellFormed (ready.tail_of_grown g) hroom
    exact ⟨u', .directory hkeep fits hinside' copies copies', same''⟩
  | file hentry hsize hfile _ ih =>
    obtain ⟨u', copies, same'⟩ := ih (same.set _ _)
      ((ready.same same wf).grown_set _).wellFormed (ready.tail_of_grown (ready.grown_set _)) hroom
    exact ⟨u', .file hentry hsize ((same.find?_eq _).symm.trans hfile) copies, same'⟩
  | leave hentry hleave _ ih =>
    obtain ⟨u', copies, same'⟩ := ih same wf ready.tail hroom
    exact ⟨u', .leave hentry (fun content executable hfile =>
      hleave content executable ((same.find?_eq _).trans hfile)) copies, same'⟩

/-! ### Copying into what is copied -/

theorem listing?_of_leads {p : String} (h : t.Leads p l) : t.listing? p = some (t.listing l) := by
  rw [FileTree.listing?, h.1]
  simp [h.2]

theorem size_lt_of_listing? {p : String} (h : t.listing? p = some inside) :
    p.utf8ByteSize < pathLimit := by
  rw [FileTree.listing?] at h
  split at h
  · cases h
  · rename_i m hm
    exact (of_locate hm).2

/-- A directory cannot be copied to one two or more levels below it that the copying gets to: there
the copy holds what it is made of, and that goes on as long as there is room. -/
theorem not_copies_below {d : Location} {first second : String} {more : List String}
    (h : Copies room t origin target l listed u) (ready : Ready t target l listed)
    (hroom : target.utf8ByteSize + room < pathLimit) (leads : t.Leads origin d)
    (hl : l = d ++ first :: second :: more)
    (keep : ∀ name ∈ first :: second :: more, name ∉ skippedNames)
    (hlisted : (first, Entry.directory) ∈ listed) : False := by
  induction h generalizing d first second more with
  | nil => exact absurd hlisted List.not_mem_nil
  | skip hskip _ ih =>
    obtain heq | hrest := List.mem_cons.1 hlisted
    · cases heq
      exact keep _ List.mem_cons_self hskip
    · exact ih ready.tail hroom leads hl keep hrest
  | @directory room t origin target l name inside v rest u hkeep fits hinside hcopies _ ihInside
      ihRest =>
    obtain ⟨hsize, hroom'⟩ := utf8ByteSize_join_lt ready.isName_head hroom fits
    have ready' := ready.within_directory hsize hinside
    have made := ready.grown_set .directory
    obtain heq | hrest := List.mem_cons.1 hlisted
    · cases heq
      have wf := ready.wellFormed
      have hdir : t.get? (d ++ [name]) = some .directory :=
        wf.directory_of_prefix ready.leads.2 ⟨second :: more, by simp [hl]⟩
      have hnext : t.get? (d ++ [name] ++ [second]) = some .directory :=
        wf.directory_of_prefix ready.leads.2 ⟨more, by simp [hl]⟩
      have leads' := leads.join ready.isName_head (size_lt_of_listing? hinside) hdir
      rw [listing?_of_leads leads'] at hinside
      cases hinside
      -- below, the names on the way from the directory to its copy are the same ones, rotated
      obtain ⟨third, more', hmore⟩ : ∃ third more', more ++ [name] = third :: more' := by
        cases more <;> simp
      have hl' : l ++ [name] = d ++ [name] ++ second :: third :: more' := by simp [hl, ← hmore]
      refine ihInside ready' hroom' (made.within.leads leads') hl' (fun n hn => keep n ?_)
        (wf.mem_listing.2 hnext)
      rw [← hmore, List.mem_cons, List.mem_append, List.mem_singleton] at hn
      rcases hn with hn | hn | hn <;> simp [hn]
    · have g := hcopies.grown_directory ready hroom fits hinside
      exact ihRest (ready.tail_of_grown g) hroom (g.within.leads leads) hl keep hrest
  | file hentry hsize hfile _ ih =>
    obtain heq | hrest := List.mem_cons.1 hlisted
    · cases heq
      exact hentry rfl
    · exact ih (ready.tail_of_grown (ready.grown_set _)) hroom
        ((ready.grown_set _).within.leads leads) hl keep hrest
  | leave hentry hleave _ ih =>
    obtain heq | hrest := List.mem_cons.1 hlisted
    · cases heq
      exact hentry rfl
    · exact ih ready.tail hroom leads hl keep hrest

end

end HouseRules.Fetch
