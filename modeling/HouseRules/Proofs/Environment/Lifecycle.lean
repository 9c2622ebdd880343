import HouseRules.Proofs.Environment.Coverage
import Mathlib.Data.List.Induction

/-! The life of an environment under any calls that provide for it. One that is there is never
removed; one that is not there comes to stay only by a call that succeeds, since a call that has
found none and fails leaves nothing. -/

namespace HouseRules

namespace Environment

/-! ### Calls -/

/-- A call that provides for an environment: for a batch of rules, or for one source. -/
inductive Upkeep where
  | provision (sources : List String)
  | install (source : String)

namespace Upkeep

/-- The sources for which the call installs something if it creates the environment. -/
def fresh : Upkeep → List String
  | provision sources => sources
  | install source => [source]

/-- The sources for which the call installs something if the environment is there. -/
def again : Upkeep → List String
  | provision _ => []
  | install source => [source]

variable {σ : Type} [HasWorld σ]

def action (e : Environment σ) : Upkeep → Action σ Unit
  | provision sources => e.provision sources
  | install source => e.install source

end Upkeep

/-- The state after calls, whatever comes of each of them. -/
def afterUpkeep {σ : Type} [HasWorld σ] (e : Environment σ) : List Upkeep → σ → σ
  | [], s => s
  | c :: cs, s => e.afterUpkeep cs ((c.action e).run s).2

/-! ### Commands -/

/-- The command is one of those that provide for the environment. -/
def Builds (e : Environment) (c : Command) : Prop :=
  c = e.creation ∨ ∃ source, c = e.installation source

/-- Nothing is at the place of the environment. -/
def Vacant (e : Environment) (w : World) : Prop :=
  w.tree.exists? e.layout.environmentDir = false

/-- What is at the place of the environment can be removed. -/
def Removable (e : Environment) (w : World) : Prop :=
  e.Vacant w ∨ (w.tree.removeDirectory? e.layout.environmentDir).isSome = true

/-- Commands leave an environment where one is, and what they leave in its place can be removed if
that could be before. -/
structure Gentle (e : Environment) : Prop where
  keeps : ∀ c w, e.Builds c → e.isProvisioned w = true → e.isProvisioned (e.launch c w).2 = true
  removable : ∀ c w, e.Builds c → e.Removable w → e.Removable (e.launch c w).2

/-- Whether a list of what the source needs is stored. -/
def hasList (e : Environment) (w : World) (source : String) : Bool :=
  w.tree.isFile (e.layout.requirements source)

/-- The creation of the environment in a world. -/
def creating (e : Environment) (w : World) : Started :=
  ⟨e.creation, w, (e.launch e.creation w).1⟩

/-- An installation for a source in a world. -/
def installing (e : Environment) (source : String) (w : World) : Started :=
  ⟨e.installation source, w, (e.launch (e.installation source) w).1⟩

/-- What is started to install the needs of sources one after the other, up to the first failure,
if there is one; whether all was installed; and the world after that. Each source is asked for its
needs when its turn comes. -/
inductive Supplies (e : Environment) : List String → World → List Started → Bool → World → Prop
  where
  | done (w : World) : Supplies e [] w [] true w
  | without {source : String} {sources : List String} {w u : World} {xs : List Started}
      {all : Bool} (without : ¬e.Needs w source) (rest : Supplies e sources w xs all u) :
      Supplies e (source :: sources) w xs all u
  | installed {source : String} {sources : List String} {w u : World} {xs : List Started}
      {all : Bool} (need : e.Needs w source)
      (success : (e.installing source w).result.isSuccess = true)
      (rest : Supplies e sources (e.launch (e.installation source) w).2 xs all u) :
      Supplies e (source :: sources) w (e.installing source w :: xs) all u
  | failed {source : String} {sources : List String} {w : World} (need : e.Needs w source)
      (failure : (e.installing source w).result.isSuccess = false) :
      Supplies e (source :: sources) w [e.installing source w] false
        (e.launch (e.installation source) w).2

section

variable {e : Environment} {r t : Recorded} {w u : World} {sources : List String}
  {xs : List Started} {all : Bool}

/-! ### Installing -/

theorem Supplies.isProvisioned (h : e.Supplies sources w xs all u) (gentle : e.Gentle)
    (there : e.isProvisioned w = true) : e.isProvisioned u = true := by
  induction h with
  | done => exact there
  | without _ _ ih => exact ih there
  | installed _ _ _ ih => exact ih (gentle.keeps _ _ (.inr ⟨_, rfl⟩) there)
  | failed => exact gentle.keeps _ _ (.inr ⟨_, rfl⟩) there

theorem Supplies.removable (h : e.Supplies sources w xs all u) (gentle : e.Gentle)
    (before : e.Removable w) : e.Removable u := by
  induction h with
  | done => exact before
  | without _ _ ih => exact ih before
  | installed _ _ _ ih => exact ih (gentle.removable _ _ (.inr ⟨_, rfl⟩) before)
  | failed => exact gentle.removable _ _ (.inr ⟨_, rfl⟩) before

/-- Where commands leave the lists of needs alone, the installations are those for the sources
that have a list, in order, or the first of these up to the one that failed. -/
theorem Supplies.commands (h : e.Supplies sources w xs all u)
    (needs : ∀ c v source, e.Builds c → (e.Needs (e.launch c v).2 source ↔ e.Needs v source)) :
    ∃ rest, (sources.filter (e.hasList w)).map e.installation =
      xs.map Started.command ++ rest ∧ (all = true → rest = []) := by
  have same (a : String) (v : World) :
      e.hasList (e.launch (e.installation a) v).2 = e.hasList v :=
    funext fun source => Bool.eq_iff_iff.2 (needs _ v source (.inr ⟨a, rfl⟩))
  induction h with
  | done => exact ⟨[], rfl, fun _ => rfl⟩
  | without absent _ ih =>
    rw [List.filter_cons_of_neg (p := e.hasList _) absent]
    exact ih
  | installed need _ _ ih =>
    obtain ⟨rest, front, last⟩ := ih
    rw [same] at front
    rw [List.filter_cons_of_pos (p := e.hasList _) need, List.map_cons, front]
    exact ⟨rest, rfl, last⟩
  | failed need _ =>
    rw [List.filter_cons_of_pos (p := e.hasList _) need, List.map_cons]
    exact ⟨_, rfl, nofun⟩

/-- Installing for sources in turn, with what is started for that. -/
theorem supplies_forM (e : Environment) (sources : List String) (r : Recorded) :
    ∃ xs u, (e.Supplies sources r.world xs true u ∧
        (sources.forM e.recorded.installRequirements).run r = (.ok (), ⟨u, r.started ++ xs⟩)) ∨
      (e.Supplies sources r.world xs false u ∧ ∃ error,
        (sources.forM e.recorded.installRequirements).run r =
          (.error error, ⟨u, r.started ++ xs⟩)) := by
  induction sources generalizing r with
  | nil => exact ⟨[], r.world, .inl ⟨.done _, by rw [List.append_nil]; rfl⟩⟩
  | cons source sources ih =>
    obtain ⟨without, run⟩ | ⟨need, success, run⟩ | ⟨need, failure, error, run⟩ :=
      installRequirements_cases e.recorded source r
    · have absent : ¬e.Needs r.world source := ne_true_of_eq_false without
      obtain ⟨xs, u, ⟨rest, ends⟩ | ⟨rest, error, ends⟩⟩ := ih r
      · exact ⟨xs, u, .inl ⟨.without absent rest, (Action.run_bind_ok run _).trans ends⟩⟩
      · exact ⟨xs, u, .inr ⟨.without absent rest, error, (Action.run_bind_ok run _).trans ends⟩⟩
    · obtain ⟨xs, u, h⟩ := ih ⟨(e.launch (e.installation source) r.world).2,
        r.started ++ [e.installing source r.world]⟩
      rw [List.append_assoc, List.singleton_append] at h
      obtain ⟨rest, ends⟩ | ⟨rest, error, ends⟩ := h
      · exact ⟨_, u, .inl ⟨.installed need success rest, (Action.run_bind_ok run _).trans ends⟩⟩
      · exact ⟨_, u, .inr ⟨.installed need success rest, error,
          (Action.run_bind_ok run _).trans ends⟩⟩
    · exact ⟨_, _, .inr ⟨.failed need failure, error, Action.run_bind_error run _⟩⟩

/-! ### One call -/

theorem isProvisioned_of_vacant (h : e.Vacant w) : e.isProvisioned w = false := by
  rw [Vacant, ← Bool.not_eq_true] at h
  rw [← Bool.not_eq_true]
  exact mt FileTree.exists?_of_isDirectory h

theorem vacant_discarded (h : e.Removable r.world) : e.Vacant (e.recorded.discarded r).world := by
  rw [discarded_recorded]
  split
  · rename_i occupied
    obtain vacant | removable := h
    · exact absurd (vacant.symm.trans occupied) (by decide)
    · split
      · rename_i tree gone
        exact FileTree.exists?_of_removeDirectory? (by decide) (by decide)
          (getLast?_environmentDir e.layout) gone
      · rename_i stuck
        change r.world.tree.removeDirectory? e.layout.environmentDir = none at stuck
        rw [stuck] at removable
        cases removable
  · rename_i vacant
    exact Bool.eq_false_iff.2 vacant

theorem installRequirements_eq_forM (source : String) :
    e.recorded.installRequirements source = [source].forM e.recorded.installRequirements :=
  (bind_pure (e.recorded.installRequirements source)).symm

/-- A call installs into the environment that is there, or creates one and installs into it, or
fails to create one. -/
theorem upkeep_cases (e : Environment) (c : Upkeep) (r : Recorded) :
    (e.isProvisioned r.world = true ∧
      (c.action e.recorded).run r = (c.again.forM e.recorded.installRequirements).run r) ∨
    (e.isProvisioned r.world = false ∧ (e.launch e.creation r.world).1.isSuccess = true ∧
      (c.action e.recorded).run r =
        (e.recorded.orDiscard (c.fresh.forM e.recorded.installRequirements)).run
          (e.recorded.launch e.creation r).2) ∨
    (e.isProvisioned r.world = false ∧ (e.launch e.creation r.world).1.isSuccess = false ∧
      ∃ error, (c.action e.recorded).run r =
        (.error error, e.recorded.discarded (e.recorded.launch e.creation r).2)) := by
  obtain ⟨there, run⟩ | ⟨absent, success, run⟩ | ⟨absent, failure, error, run⟩ :=
    ensure_cases e.recorded r
  · refine .inl ⟨there, ?_⟩
    cases c with
    | provision sources => exact provision_of_reused run
    | install source =>
      rw [Upkeep.again, ← installRequirements_eq_forM]
      exact install_of_reused run
  · refine .inr (.inl ⟨absent, success, ?_⟩)
    cases c with
    | provision sources => exact provision_of_created run
    | install source =>
      rw [Upkeep.fresh, ← installRequirements_eq_forM]
      exact install_of_created run
  · refine .inr (.inr ⟨absent, failure, error, ?_⟩)
    cases c with
    | provision sources => exact provision_of_failure run
    | install source => exact install_of_failure run

theorem upkeep_of_there (gentle : e.Gentle) (c : Upkeep) (there : e.isProvisioned r.world = true) :
    e.isProvisioned ((c.action e.recorded).run r).2.world = true := by
  obtain ⟨-, run⟩ | ⟨absent, -⟩ | ⟨absent, -⟩ := upkeep_cases e c r
  · rw [run]
    obtain ⟨xs, u, ⟨supplied, ends⟩ | ⟨supplied, error, ends⟩⟩ := supplies_forM e c.again r
    · rw [ends]
      exact supplied.isProvisioned gentle there
    · rw [ends]
      exact supplied.isProvisioned gentle there
  · rw [there] at absent
    cases absent
  · rw [there] at absent
    cases absent

/-- A call that finds no environment and fails has removed what there was. -/
theorem upkeep_of_error {c : Upkeep} {error : Error} (absent : e.isProvisioned r.world = false)
    (run : (c.action e.recorded).run r = (.error error, t)) :
    ∃ s, t = e.recorded.discarded s ∧ (e.Gentle → e.Removable r.world → e.Removable s.world) := by
  obtain ⟨there, -⟩ | ⟨-, -, created⟩ | ⟨-, -, error', failed⟩ := upkeep_cases e c r
  · rw [there] at absent
    cases absent
  · obtain ⟨xs, u, ⟨-, ends⟩ | ⟨supplied, error', ends⟩⟩ :=
      supplies_forM e c.fresh (e.recorded.launch e.creation r).2
    · rw [created, orDiscard_of_ok ends] at run
      cases run
    · rw [created, orDiscard_of_error ends] at run
      cases run
      exact ⟨_, rfl, fun gentle before =>
        supplied.removable gentle (gentle.removable _ _ (.inl rfl) before)⟩
  · rw [failed] at run
    cases run
    exact ⟨_, rfl, fun gentle before => gentle.removable _ _ (.inl rfl) before⟩

/-- What providing for a batch starts where there is no environment: its creation, and if that
succeeds what supplies the sources. The call succeeds if all of that does. -/
theorem provision_of_absent (sources : List String) (absent : e.isProvisioned r.world = false) :
    ∃ xs result t, (e.recorded.provision sources).run r = (result, t) ∧
      t.started = r.started ++ e.creating r.world :: xs ∧
      (((e.creating r.world).result.isSuccess = false ∧ xs = [] ∧ ∃ error, result = .error error) ∨
        ((e.creating r.world).result.isSuccess = true ∧ ∃ all u,
          e.Supplies sources (e.launch e.creation r.world).2 xs all u ∧
          (all = true → result = .ok ()) ∧ (all = false → ∃ error, result = .error error))) := by
  obtain ⟨there, -⟩ | ⟨-, success, created⟩ | ⟨-, failure, error, failed⟩ :=
    upkeep_cases e (.provision sources) r
  · rw [there] at absent
    cases absent
  · obtain ⟨xs, u, ⟨supplied, ends⟩ | ⟨supplied, error, ends⟩⟩ :=
      supplies_forM e sources (e.recorded.launch e.creation r).2
    · refine ⟨xs, _, _, created.trans (orDiscard_of_ok ends), List.append_assoc .., ?_⟩
      exact .inr ⟨success, true, u, supplied, fun _ => rfl, nofun⟩
    · refine ⟨xs, _, _, created.trans (orDiscard_of_error ends), ?_, ?_⟩
      · rw [started_discarded]
        exact List.append_assoc ..
      · exact .inr ⟨success, false, u, supplied, nofun, fun _ => ⟨error, rfl⟩⟩
  · refine ⟨[], _, _, failed, ?_, .inl ⟨failure, rfl, error, rfl⟩⟩
    rw [started_discarded]
    rfl

/-! ### Many calls -/

theorem afterUpkeep_append {σ : Type} [HasWorld σ] (e : Environment σ) (cs more : List Upkeep)
    (s : σ) : e.afterUpkeep (cs ++ more) s = e.afterUpkeep more (e.afterUpkeep cs s) := by
  induction cs generalizing s with
  | nil => rfl
  | cons c cs ih => exact ih _

/-- A call after which there is an environment where there was none has succeeded. -/
theorem upkeep_ok_of_created {c : Upkeep} (absent : e.isProvisioned r.world = false)
    (there : e.isProvisioned ((c.action e.recorded).run r).2.world = true) :
    ((c.action e.recorded).run r).1 = .ok () := by
  rcases run : (c.action e.recorded).run r with ⟨error | ⟨⟩, t⟩
  · obtain ⟨s, rfl, -⟩ := upkeep_of_error absent run
    rw [run] at there
    have gone : e.isProvisioned (e.recorded.discarded s).world = false :=
      isProvisioned_discarded e.recorded s
    rw [gone] at there
    cases there
  · rfl

/-- An environment that is there after calls that began without one was created by one of them,
which succeeded; the later ones all found it. -/
theorem exists_created (e : Environment) (cs : List Upkeep) (r : Recorded)
    (absent : e.isProvisioned r.world = false)
    (there : e.isProvisioned (e.recorded.afterUpkeep cs r).world = true) :
    ∃ before c later, cs = before ++ c :: later ∧
      e.isProvisioned (e.recorded.afterUpkeep before r).world = false ∧
      ((c.action e.recorded).run (e.recorded.afterUpkeep before r)).1 = .ok () ∧
      ∀ found, found <+: later →
        e.isProvisioned (e.recorded.afterUpkeep (before ++ c :: found) r).world = true := by
  induction cs using List.reverseRecOn with
  | nil =>
    rw [afterUpkeep, absent] at there
    cases there
  | append_singleton cs c ih =>
    cases earlier : e.isProvisioned (e.recorded.afterUpkeep cs r).world with
    | false =>
      have last : e.isProvisioned
          ((c.action e.recorded).run (e.recorded.afterUpkeep cs r)).2.world = true := by
        rwa [afterUpkeep_append] at there
      refine ⟨cs, c, [], rfl, earlier, upkeep_ok_of_created earlier last, fun found h => ?_⟩
      rw [List.prefix_nil.1 h]
      exact there
    | true =>
      obtain ⟨before, d, later, rfl, none, ok, found⟩ := ih earlier
      refine ⟨before, d, later ++ [c], by simp, none, ok, fun some h => ?_⟩
      obtain rfl | h := List.prefix_concat_iff.1 h
      · simpa using there
      · exact found some h

/-! ### The lifecycle -/

/-- The life of an environment. A call that finds it keeps it. A call that finds nothing at its
place and fails leaves nothing there. Providing for a batch starts nothing if the environment is
there, and otherwise creates it and then supplies the sources. After calls that began without an
environment, one that is there was created by a call that succeeded. -/
theorem upkeep_lifecycle (gentle : e.Gentle) :
    (∀ (c : Upkeep) (r : Recorded), e.isProvisioned r.world = true →
      e.isProvisioned ((c.action e.recorded).run r).2.world = true) ∧
    (∀ (c : Upkeep) (r t : Recorded) (error : Error), e.Vacant r.world →
      (c.action e.recorded).run r = (.error error, t) → e.Vacant t.world) ∧
    (∀ (sources : List String) (r : Recorded), e.isProvisioned r.world = true →
      (e.recorded.provision sources).run r = (.ok (), r)) ∧
    (∀ (sources : List String) (r : Recorded), e.isProvisioned r.world = false →
      ∃ xs result t, (e.recorded.provision sources).run r = (result, t) ∧
        t.started = r.started ++ e.creating r.world :: xs ∧
        (((e.creating r.world).result.isSuccess = false ∧ xs = [] ∧
            ∃ error, result = .error error) ∨
          ((e.creating r.world).result.isSuccess = true ∧ ∃ all u,
            e.Supplies sources (e.launch e.creation r.world).2 xs all u ∧
            (all = true → result = .ok ()) ∧ (all = false → ∃ error, result = .error error)))) ∧
    (∀ (cs : List Upkeep) (r : Recorded), e.isProvisioned r.world = false →
      e.isProvisioned (e.recorded.afterUpkeep cs r).world = true →
      ∃ before c later, cs = before ++ c :: later ∧
        e.isProvisioned (e.recorded.afterUpkeep before r).world = false ∧
        ((c.action e.recorded).run (e.recorded.afterUpkeep before r)).1 = .ok () ∧
        ∀ found, found <+: later →
          e.isProvisioned (e.recorded.afterUpkeep (before ++ c :: found) r).world = true) := by
  refine ⟨fun c r => upkeep_of_there gentle c, fun c r t error vacant run => ?_,
    fun sources r there => ?_, fun sources r => provision_of_absent sources,
    fun cs r => exists_created e cs r⟩
  · obtain ⟨s, rfl, removable⟩ := upkeep_of_error (isProvisioned_of_vacant vacant) run
    exact vacant_discarded (removable gentle (.inl vacant))
  · obtain ⟨-, run⟩ | ⟨absent, -⟩ | ⟨absent, -⟩ := upkeep_cases e (.provision sources) r
    · exact run
    · rw [there] at absent
      cases absent
    · rw [there] at absent
      cases absent

end

/-! ### Without a network -/

namespace Offline

theorem gentle : environment.Gentle where
  keeps c w h there := by
    obtain rfl | ⟨source, rfl⟩ := h
    · have venv : environment.creation.arguments.take 2 = ["-m", "venv"] := rfl
      show environment.isProvisioned (launch environment.creation w).2 = true
      rw [launch, if_pos venv]
      split
      · assumption
      · exact there
    · exact reliable.keeps _ w (.inl ⟨source, rfl⟩) there
  removable c w h before := by
    obtain rfl | ⟨source, rfl⟩ := h
    · have venv : environment.creation.arguments.take 2 = ["-m", "venv"] := rfl
      show environment.Removable (launch environment.creation w).2
      rw [launch, if_pos venv]
      split
      · rename_i made
        exact .inr (FileTree.removeDirectory?_isSome made)
      · exact before
    · show environment.Removable (launch (environment.installation source) w).2
      rwa [launch_of_uses (.inl ⟨source, rfl⟩)]

theorem afterUpkeep_installs : environment.recorded.afterUpkeep
    [.install "./a", .install "./b"] ⟨stored, []⟩ = ⟨created stored, [creating, installing]⟩ := by
  obtain ⟨error, failed⟩ := install_b
  have first : ((Upkeep.install "./a").action environment.recorded).run ⟨stored, []⟩ = _ :=
    install_a
  have second : ((Upkeep.install "./b").action environment.recorded).run
      ⟨created stored, [creating]⟩ = _ := failed
  rw [afterUpkeep, first, afterUpkeep, second, afterUpkeep]

end Offline

open Offline in
/-- The environment that is there after a failed call was created by the successful one before. -/
theorem upkeep_lifecycle_offline : environment.Gentle ∧
    environment.isProvisioned stored = false ∧
    environment.isProvisioned (environment.recorded.afterUpkeep
      [.install "./a", .install "./b"] ⟨stored, []⟩).world = true ∧
    ∃ before c later, [Upkeep.install "./a", .install "./b"] = before ++ c :: later ∧
      environment.isProvisioned (environment.recorded.afterUpkeep before ⟨stored, []⟩).world =
        false ∧
      ((c.action environment.recorded).run
        (environment.recorded.afterUpkeep before ⟨stored, []⟩)).1 = .ok () ∧
      ∀ found, found <+: later → environment.isProvisioned
        (environment.recorded.afterUpkeep (before ++ c :: found) ⟨stored, []⟩).world = true := by
  have there : environment.isProvisioned (environment.recorded.afterUpkeep
      [.install "./a", .install "./b"] ⟨stored, []⟩).world = true := by
    rw [afterUpkeep_installs]
    exact isProvisioned_created
  exact ⟨gentle, isProvisioned_stored, there,
    (upkeep_lifecycle gentle).2.2.2.2 _ ⟨stored, []⟩ isProvisioned_stored there⟩

end Environment

end HouseRules
