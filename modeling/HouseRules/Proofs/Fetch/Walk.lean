import HouseRules.Proofs.Fetch.Mirror

/-! The entries that copying comes to, one after another: those that were listed in a directory,
less the directories that are left out, and after each directory those that were listed there when
its turn came. Copying is recorded with them, and what one step does to the tree is told by a relation
that also holds up to where a copying fails. -/

namespace HouseRules.Fetch

open FileTree

/-! ### Recorded copying -/

/-- An entry that copying comes to, by the names on the way from the source. -/
abbrev Step := List String × Entry

def Step.below (name : String) (v : Step) : Step := (name :: v.1, v.2)

/-- A copying and the entries that it came to. -/
structure Walked where
  copied : Copied
  steps : List Step

/-- A copying that goes on after some entries. -/
def Walked.after (steps : List Step) (w : Walked) : Walked := ⟨w.copied, steps ++ w.steps⟩

/-- Copies what was listed in a directory, and records what it comes to. -/
def walkListed (source : String) (room : Nat) (t : FileTree) (origin target : String) :
    List (String × Entry) → Walked
  | [] => ⟨⟨t, none⟩, []⟩
  | (name, entry) :: rest =>
    if entry = .directory then
      if skippedNames.contains name then walkListed source room t origin target rest
      else if _fits : name.utf8ByteSize + 1 ≤ room then
        match t.ensureDirectory (Path.join target name) with
        | none => ⟨⟨t, some (cannotCreate (Path.join target name))⟩, [([name], entry)]⟩
        | some made =>
          match t.listing? (Path.join origin name) with
          | none => ⟨⟨made, some (cannotWalk source)⟩, [([name], entry)]⟩
          | some inside =>
            let inner := walkListed source (room - (name.utf8ByteSize + 1)) made
              (Path.join origin name) (Path.join target name) inside
            if inner.copied.failure.isSome then
              ⟨inner.copied, ([name], entry) :: inner.steps.map (Step.below name)⟩
            else (walkListed source room inner.copied.tree origin target rest).after
              (([name], entry) :: inner.steps.map (Step.below name))
      else ⟨⟨t, some (cannotCreate (Path.join target name))⟩, [([name], entry)]⟩
    else
      match t.find? (Path.join origin name) with
      | some (.file content executable) =>
        match t.copyTo? (Path.join target name) content executable with
        | none => ⟨⟨t, some (cannotCopy (Path.join origin name))⟩, [([name], entry)]⟩
        | some t => (walkListed source room t origin target rest).after [([name], entry)]
      | _ => (walkListed source room t origin target rest).after [([name], entry)]
termination_by listed => (room, listed.length)

/-- Copies a directory to a new one, and records what it comes to. -/
def walkDirectory (t : FileTree) (origin target : String) : Walked :=
  match t.ensureDirectory target with
  | none => ⟨⟨t, some (cannotCreate target)⟩, []⟩
  | some t =>
    match t.listing? origin with
    | none => ⟨⟨t, some (cannotWalk origin)⟩, []⟩
    | some inside => walkListed origin (roomBelow target) t origin target inside

/-! ### Steps -/

/-- The entries that are come to while what was listed in a directory is copied to the location `l`,
all of them or up to the one that copying fails at. Copies grow under the names of what they are
copies of. -/
inductive Walks : Bool → FileTree → String → Location → List (String × Entry) → List Step → Prop
  | nil {t origin l} : Walks true t origin l [] []
  | skip {complete t origin l name rest steps} :
      name ∈ skippedNames → Walks complete t origin l rest steps →
      Walks complete t origin l ((name, .directory) :: rest) steps
  | stop {t origin l name entry rest} :
      (entry = .directory → name ∉ skippedNames) →
      Walks false t origin l ((name, entry) :: rest) [([name], entry)]
  | within {t u origin l name inside inner rest} :
      name ∉ skippedNames → t.listing? (Path.join origin name) = some inside →
      Grown t u l [name] →
      Walks false u (Path.join origin name) (l ++ [name]) inside inner →
      Walks false t origin l ((name, .directory) :: rest)
        (([name], .directory) :: inner.map (Step.below name))
  | directory {complete t u v origin l name inside inner rest steps} :
      name ∉ skippedNames → t.listing? (Path.join origin name) = some inside →
      Grown t u l [name] →
      Walks true u (Path.join origin name) (l ++ [name]) inside inner →
      Grown t v l [name] → Walks complete v origin l rest steps →
      Walks complete t origin l ((name, .directory) :: rest)
        (([name], .directory) :: inner.map (Step.below name) ++ steps)
  | other {complete t u origin l name entry rest steps} :
      entry ≠ .directory → Grown t u l [name] → Walks complete u origin l rest steps →
      Walks complete t origin l ((name, entry) :: rest) (([name], entry) :: steps)

section

variable {t u v w : FileTree} {source origin target name : String} {d l s : Location}
  {entry : Entry} {listed rest inside : List (String × Entry)} {room : Nat} {steps : List Step}
  {complete : Bool}

/-! ### Runs -/

/-- The recorded copying is the copying. -/
theorem walkListed_copied : (walkListed source room t origin target listed).copied =
    copyListed source room t origin target listed := by
  fun_induction walkListed source room t origin target listed with
  | case1 => rw [copyListed.eq_def]
  | case2 room t origin target name rest hskip ih =>
    rw [copyListed_cons_of_directory, if_pos hskip, ih]
  | case3 room t origin target name rest hkeep fits hmade =>
    rw [copyListed_cons_of_directory, if_neg hkeep, if_pos fits, hmade]
  | case4 room t origin target name rest hkeep fits made hmade hinside =>
    rw [copyListed_cons_of_directory, if_neg hkeep, if_pos fits, hmade]
    simp only [hinside]
  | case5 room t origin target name rest hkeep fits made hmade inside hinside inner failed ih =>
    rw [copyListed_cons_of_directory, if_neg hkeep, if_pos fits, hmade]
    simp only [hinside, ← ih]
    exact (if_pos failed).symm
  | case6 room t origin target name rest hkeep fits made hmade inside hinside inner passed ih
      ihRest =>
    rw [copyListed_cons_of_directory, if_neg hkeep, if_pos fits, hmade]
    simp only [hinside, ← ih]
    exact ihRest.trans (if_neg passed).symm
  | case7 room t origin target name rest hkeep narrow =>
    rw [copyListed_cons_of_directory, if_neg hkeep, if_neg narrow]
  | case8 room t origin target name entry rest hentry content executable hfile hmade =>
    rw [copyListed_cons_of_ne _ _ _ _ _ _ hentry, hfile]
    simp only [hmade]
  | case9 room t origin target name entry rest hentry content executable hfile made hmade ih =>
    rw [copyListed_cons_of_ne _ _ _ _ _ _ hentry, hfile]
    simp only [hmade]
    exact ih
  | case10 room t origin target name entry rest hentry hleave ih =>
    rw [copyListed_cons_of_ne _ _ _ _ _ _ hentry]
    split
    · rename_i hfile
      exact absurd hfile (hleave _ _)
    · exact ih

-- by `eq_def`: the equations that Lean makes for the cases are slow to check
theorem walkListed_nil : walkListed source room t origin target [] = ⟨⟨t, none⟩, []⟩ := by
  rw [walkListed.eq_def]

theorem walkDirectory_copied :
    (walkDirectory t origin target).copied = copyDirectory t origin target := by
  rw [walkDirectory, copyDirectory]
  rcases t.ensureDirectory target with _ | made
  · rfl
  · rcases hinside : made.listing? origin with _ | inside
    · simp only [hinside]
    · simp only [hinside, walkListed_copied]

/-- What is recorded are the steps of a copying into a directory that is ready. -/
theorem walks_walkListed (ready : Ready t target l listed)
    (hroom : target.utf8ByteSize + room < pathLimit) :
    Walks (walkListed source room t origin target listed).copied.failure.isNone t origin l listed
      (walkListed source room t origin target listed).steps := by
  fun_induction walkListed source room t origin target listed generalizing l with
  | case1 => exact .nil
  | case2 room t origin target name rest hskip ih =>
    exact .skip (by simpa using hskip) (ih ready.tail hroom)
  | case3 room t origin target name rest hkeep => exact .stop fun _ => by simpa using hkeep
  | case4 room t origin target name rest hkeep => exact .stop fun _ => by simpa using hkeep
  | case5 room t origin target name rest hkeep fits made hmade inside hinside inner failed =>
    rename_i ih
    obtain ⟨hsize, hroom'⟩ := utf8ByteSize_join_lt ready.isName_head hroom fits
    obtain ⟨-, rfl⟩ := (ensureDirectory_join ready.leads ready.isName_head ready.free_head).1 hmade
    have walks := ih (ready.within_directory hsize hinside) hroom'
    have failure : inner.copied.failure.isNone = false := by simpa using failed
    rw [failure] at walks ⊢
    exact .within (by simpa using hkeep) hinside (ready.grown_set .directory) walks
  | case6 room t origin target name rest hkeep fits made hmade inside hinside inner passed =>
    rename_i ih ihRest
    obtain ⟨hsize, hroom'⟩ := utf8ByteSize_join_lt ready.isName_head hroom fits
    obtain ⟨-, rfl⟩ := (ensureDirectory_join ready.leads ready.isName_head ready.free_head).1 hmade
    have ready' := ready.within_directory hsize hinside
    have walks := ih ready' hroom'
    have failure : inner.copied.failure = none := by simpa using passed
    have copies : Copies _ _ _ _ _ inside inner.copied.tree :=
      copies_of_copyListed (walkListed_copied.symm.trans
        (congrArg (Copied.mk inner.copied.tree) failure)) ready' hroom'
    have g := copies.grown_directory ready hroom fits hinside
    rw [show inner.copied.failure.isNone = true by simp [failure]] at walks
    exact .directory (by simpa using hkeep) hinside (ready.grown_set .directory) walks g
      (ihRest (ready.tail_of_grown g) hroom)
  | case7 room t origin target name rest hkeep => exact .stop fun _ => by simpa using hkeep
  | case8 room t origin target name entry rest hentry => exact .stop fun h => absurd h hentry
  | case9 room t origin target name entry rest hentry content executable hfile made hmade ih =>
    rw [copyTo?_join ready.leads ready.isName_head ready.free_head] at hmade
    split at hmade
    · cases hmade
      exact .other hentry (ready.grown_set _) (ih (ready.tail_of_grown (ready.grown_set _)) hroom)
    · cases hmade
  | case10 room t origin target name entry rest hentry hleave ih =>
    exact .other hentry (Grown.refl ready.wellFormed l [name]) (ih ready.tail hroom)

theorem Step.map_fst_below (name : String) (steps : List Step) :
    (steps.map (Step.below name)).map Prod.fst = (steps.map Prod.fst).map (name :: ·) := by
  simp only [List.map_map]
  rfl

namespace Walks

/-- What is come to starts with a name that was listed. -/
theorem head?_mem (h : Walks complete t origin l listed steps) :
    ∀ names ∈ steps.map Prod.fst, ∃ name ∈ listed.map Prod.fst, names.head? = some name := by
  induction h with
  | nil => exact fun names mem => absurd mem List.not_mem_nil
  | skip _ _ ih =>
    intro names mem
    obtain ⟨name, listed, head⟩ := ih names mem
    exact ⟨name, List.mem_cons_of_mem _ listed, head⟩
  | @stop t origin l name =>
    intro names mem
    exact ⟨name, List.mem_cons_self, by rw [List.mem_singleton.1 mem]; rfl⟩
  | @within t u origin l name =>
    rw [List.map_cons, Step.map_fst_below]
    refine List.forall_mem_cons.2 ⟨⟨name, List.mem_cons_self, rfl⟩, List.forall_mem_map.2 ?_⟩
    exact fun _ _ => ⟨name, List.mem_cons_self, rfl⟩
  | @directory complete t u v origin l name inside inner rest steps _ _ _ _ _ _ _ ih =>
    rw [List.map_append, List.map_cons, Step.map_fst_below]
    refine List.forall_mem_append.2 ⟨List.forall_mem_cons.2
      ⟨⟨name, List.mem_cons_self, rfl⟩, List.forall_mem_map.2 fun _ _ =>
        ⟨name, List.mem_cons_self, rfl⟩⟩, fun names mem => ?_⟩
    obtain ⟨name, listed, head⟩ := ih names mem
    exact ⟨name, List.mem_cons_of_mem _ listed, head⟩
  | @other complete t u origin l name entry rest steps _ _ _ ih =>
    refine List.forall_mem_cons.2 ⟨⟨name, List.mem_cons_self, rfl⟩, fun names mem => ?_⟩
    obtain ⟨name, listed, head⟩ := ih names mem
    exact ⟨name, List.mem_cons_of_mem _ listed, head⟩

/-- Nothing is come to twice in a directory. -/
theorem nodup_below (name : String) (h : Walks complete t origin l listed steps)
    (nodup : (steps.map Prod.fst).Nodup) :
    ((([name], Entry.directory) :: steps.map (Step.below name)).map Prod.fst).Nodup := by
  rw [List.map_cons, Step.map_fst_below, List.nodup_cons]
  refine ⟨fun mem => ?_, nodup.map (List.cons_injective (a := name))⟩
  obtain ⟨names, mem, same⟩ := List.mem_map.1 mem
  obtain ⟨_, -, head⟩ := h.head?_mem names mem
  rw [(List.cons.inj same).2] at head
  cases head

/-- Nothing is come to twice. -/
theorem nodup (h : Walks complete t origin l listed steps) (wf : t.WellFormed)
    (hlisted : (listed.map Prod.fst).Nodup) : (steps.map Prod.fst).Nodup := by
  induction h with
  | nil => exact List.nodup_nil
  | skip _ _ ih => exact ih wf (List.nodup_cons.1 hlisted).2
  | stop => exact List.nodup_singleton _
  | @within t u origin l name inside inner rest _ hinside g walks ih =>
    exact walks.nodup_below name (ih g.wellFormed (listing?_names wf hinside).2)
  | @directory complete t u v origin l name inside inner rest steps _ hinside g walks g' walks' ih
      ihRest =>
    obtain ⟨hname, hrest⟩ := List.nodup_cons.1 hlisted
    rw [List.map_append, List.nodup_append']
    refine ⟨walks.nodup_below name (ih g.wellFormed (listing?_names wf hinside).2),
      ihRest g'.wellFormed hrest, fun names mem mem' => ?_⟩
    -- what is in the directory starts with its name, and nothing after it does
    obtain ⟨other, listed, head⟩ := walks'.head?_mem names mem'
    rw [List.map_cons, Step.map_fst_below] at mem
    obtain rfl | mem := List.mem_cons.1 mem
    · exact hname (Option.some.inj head ▸ listed)
    · obtain ⟨_, -, rfl⟩ := List.mem_map.1 mem
      exact hname (Option.some.inj head ▸ listed)
  | @other complete t u origin l name entry rest steps _ g walks ih =>
    obtain ⟨hname, hrest⟩ := List.nodup_cons.1 hlisted
    refine List.nodup_cons.2 ⟨fun mem => ?_, ih g.wellFormed hrest⟩
    obtain ⟨other, listed, head⟩ := walks.head?_mem _ mem
    exact hname (Option.some.inj head ▸ listed)

end Walks

/-! ### Old entries -/

/-- A directory that is copied into `s`, in a tree on the way from `w`: only what is in `s` may have
changed, and no way on which something is kept gets there. -/
structure Beside (w t : FileTree) (p : String) (d s : Location) : Prop where
  leads : t.Leads p d
  agrees : ∀ m, ¬s <+: m → t.get? m = w.get? m
  apart : Apart d s

namespace Beside

variable {p : String}

theorem get?_concat_eq (h : Beside w t p d s) (name : String) :
    t.get? (d ++ [name]) = w.get? (d ++ [name]) :=
  h.agrees _ (h.apart [name] (Passes.singleton name))

theorem of_grown (h : Beside w t p d s) {names : List String} (g : Grown t u l names)
    (hs : s <+: l) : Beside w u p d s where
  leads := g.within.leads h.leads
  agrees m hm := (g.get?_eq m fun _ _ below =>
    hm ((hs.trans (List.prefix_append l _)).trans below)).trans (h.agrees m hm)
  apart := h.apart

/-- A directory in it is one too, and what is listed there was there before. -/
theorem directory (h : Beside w t p d s) (wf : t.WellFormed) (hname : IsName name)
    (hkeep : name ∉ skippedNames) (hdir : w.get? (d ++ [name]) = some .directory)
    (hinside : t.listing? (Path.join p name) = some inside) :
    Beside w t (Path.join p name) (d ++ [name]) s ∧ (∀ x ∈ inside, IsName x.1) ∧
      ∀ x ∈ inside, w.get? (d ++ [name] ++ [x.1]) = some x.2 := by
  have leads := h.leads.join hname (size_lt_of_listing? hinside)
    ((h.get?_concat_eq name).trans hdir)
  have beside : Beside w t (Path.join p name) (d ++ [name]) s :=
    ⟨leads, h.agrees, h.apart.inside hkeep⟩
  refine ⟨beside, (listing?_names wf hinside).1, fun x mem => ?_⟩
  rw [listing?_of_leads leads] at hinside
  cases hinside
  rw [← beside.get?_concat_eq]
  exact wf.mem_listing.1 mem

end Beside

/-- An entry of a tree on a way from a directory that no left out directory is on. -/
structure IsStep (w : FileTree) (d : Location) (v : Step) : Prop where
  ne_nil : v.1 ≠ []
  get?_eq : w.get? (d ++ v.1) = some v.2
  passes : Passes v.1
  kept : v.2 = .directory → ∀ name ∈ v.1, name ∉ skippedNames

theorem IsStep.below {v : Step} (h : IsStep w (d ++ [name]) v) (hkeep : name ∉ skippedNames) :
    IsStep w d (v.below name) where
  ne_nil := List.cons_ne_nil name v.1
  get?_eq := by
    rw [Step.below, List.append_cons]
    exact h.get?_eq
  passes := h.passes.cons hkeep
  kept hdir := List.forall_mem_cons.2 ⟨hkeep, h.kept hdir⟩

theorem isStep_singleton (h : w.get? (d ++ [name]) = some entry)
    (hkeep : entry = .directory → name ∉ skippedNames) : IsStep w d ([name], entry) where
  ne_nil := List.cons_ne_nil name []
  get?_eq := h
  passes := Passes.singleton name
  kept hdir _ mem := List.mem_singleton.1 mem ▸ hkeep hdir

/-- What is come to in a directory, and the directory itself before. -/
theorem isStep_directory (hdir : w.get? (d ++ [name]) = some .directory)
    (hkeep : name ∉ skippedNames) (h : ∀ v ∈ steps, IsStep w (d ++ [name]) v) :
    ∀ v ∈ ([name], Entry.directory) :: steps.map (Step.below name), IsStep w d v :=
  List.forall_mem_cons.2 ⟨isStep_singleton hdir fun _ => hkeep,
    List.forall_mem_map.2 fun v mem => (h v mem).below hkeep⟩

/-- Where copying does not get to its copies it comes to what was there before. -/
theorem Walks.isStep (h : Walks complete t origin l listed steps) (wf : t.WellFormed)
    (isName : ∀ x ∈ listed, IsName x.1) (beside : Beside w t origin d s) (hs : s <+: l)
    (hlisted : ∀ x ∈ listed, w.get? (d ++ [x.1]) = some x.2) : ∀ v ∈ steps, IsStep w d v := by
  induction h generalizing d with
  | nil => exact fun v mem => absurd mem List.not_mem_nil
  | skip _ _ ih =>
    exact ih wf (List.forall_mem_cons.1 isName).2 beside hs (List.forall_mem_cons.1 hlisted).2
  | stop hkeep =>
    intro v mem
    rw [List.mem_singleton.1 mem]
    exact isStep_singleton (List.forall_mem_cons.1 hlisted).1 hkeep
  | within hkeep hinside g _ ih =>
    have hdir := hlisted _ List.mem_cons_self
    obtain ⟨beside', isName', hlisted'⟩ :=
      beside.directory wf (isName _ List.mem_cons_self) hkeep hdir hinside
    exact isStep_directory hdir hkeep (ih g.wellFormed isName' (beside'.of_grown g hs)
      (hs.trans (List.prefix_append _ _)) hlisted')
  | directory hkeep hinside g _ g' _ ih ihRest =>
    have hdir := hlisted _ List.mem_cons_self
    obtain ⟨beside', isName', hlisted'⟩ :=
      beside.directory wf (isName _ List.mem_cons_self) hkeep hdir hinside
    refine List.forall_mem_append.2 ⟨?_, ?_⟩
    · exact isStep_directory hdir hkeep (ih g.wellFormed isName' (beside'.of_grown g hs)
        (hs.trans (List.prefix_append _ _)) hlisted')
    · exact ihRest g'.wellFormed (List.forall_mem_cons.1 isName).2 (beside.of_grown g' hs) hs
        (List.forall_mem_cons.1 hlisted).2
  | other hentry g _ ih =>
    obtain ⟨hw, hrest⟩ := List.forall_mem_cons.1 hlisted
    exact List.forall_mem_cons.2 ⟨isStep_singleton hw fun hdir => absurd hdir hentry,
      ih g.wellFormed (List.forall_mem_cons.1 isName).2 (beside.of_grown g hs) hs hrest⟩

/-! ### New entries -/

/-- Copying that goes through comes to every directory that is there when it starts, unless a name
on the way to that is left out. -/
theorem Walks.mem_of_directory (h : Walks true t origin l listed steps) (wf : t.WellFormed)
    (isName : ∀ x ∈ listed, IsName x.1) (leads : t.Leads origin d) {names : List String}
    (hlisted : (name, Entry.directory) ∈ listed)
    (hkeep : ∀ other ∈ name :: names, other ∉ skippedNames)
    (hdir : t.get? (d ++ name :: names) = some .directory) :
    (name :: names, Entry.directory) ∈ steps := by
  generalize hc : true = c at h
  induction h generalizing d name names with
  | nil => exact absurd hlisted List.not_mem_nil
  | skip hskip _ ih =>
    obtain same | hrest := List.mem_cons.1 hlisted
    · cases same
      exact absurd hskip (hkeep _ List.mem_cons_self)
    · exact ih wf (List.forall_mem_cons.1 isName).2 leads hrest hkeep hdir hc
  | stop => cases hc
  | within => cases hc
  | @directory complete t u v origin l other inside inner rest steps _ hinside g _ g' _ ih ihRest =>
    obtain same | hrest := List.mem_cons.1 hlisted
    · cases same
      cases names with
      | nil => exact List.mem_cons_self
      | cons next names =>
        rw [List.append_cons] at hdir
        have leads' := leads.join (isName _ List.mem_cons_self) (size_lt_of_listing? hinside)
          (wf.directory_of_prefix hdir (List.prefix_append _ _))
        have hnames := (listing?_names wf hinside).1
        rw [listing?_of_leads leads'] at hinside
        cases hinside
        have hnext : t.get? (d ++ [other] ++ [next]) = some .directory := by
          rw [List.append_cons] at hdir
          exact wf.directory_of_prefix hdir (List.prefix_append _ _)
        refine List.mem_append_left _ (List.mem_cons_of_mem _ (List.mem_map.2 ⟨_, ih g.wellFormed
          hnames (g.within.leads leads') (wf.mem_listing.2 hnext)
          (fun n mem => hkeep n (List.mem_cons_of_mem _ mem)) (g.within.get?_eq hdir) rfl, rfl⟩))
    · exact List.mem_append_right _ (ihRest g'.wellFormed (List.forall_mem_cons.1 isName).2
        (g'.within.leads leads) hrest hkeep (g'.within.get?_eq hdir) hc)
  | other hentry g _ ih =>
    obtain same | hrest := List.mem_cons.1 hlisted
    · cases same
      exact absurd rfl hentry
    · exact List.mem_cons_of_mem _ (ih g.wellFormed (List.forall_mem_cons.1 isName).2
        (g.within.leads leads) hrest hkeep (g.within.get?_eq hdir) hc)

/-- Copying comes to the first directory that was listed and goes on in there. It comes to what it
comes to in there even if it fails there or later. -/
theorem walkListed_enter (source : String) (ready : Ready t target l ((name, .directory) :: rest))
    (hroom : target.utf8ByteSize + room < pathLimit) (hkeep : name ∉ skippedNames)
    (fits : name.utf8ByteSize + 1 ≤ room)
    (hinside : t.listing? (Path.join origin name) = some inside) :
    Ready (t.set (l ++ [name]) .directory) (Path.join target name) (l ++ [name]) inside ∧
    (Path.join target name).utf8ByteSize + (room - (name.utf8ByteSize + 1)) < pathLimit ∧
    ([name], Entry.directory) :: (walkListed source (room - (name.utf8ByteSize + 1))
        (t.set (l ++ [name]) .directory) (Path.join origin name) (Path.join target name)
        inside).steps.map (Step.below name) <+:
      (walkListed source room t origin target ((name, .directory) :: rest)).steps := by
  obtain ⟨hsize, hroom'⟩ := utf8ByteSize_join_lt ready.isName_head hroom fits
  refine ⟨ready.within_directory hsize hinside, hroom', ?_⟩
  have made := (ensureDirectory_join ready.leads ready.isName_head ready.free_head).2 ⟨hsize, rfl⟩
  rw [walkListed.eq_def source room t]
  simp only [if_true, List.contains_eq_mem, hkeep, decide_false, Bool.false_eq_true, if_false, fits,
    dite_true, made, hinside]
  split
  · exact List.prefix_rfl
  · exact List.prefix_append _ _

end

end HouseRules.Fetch
