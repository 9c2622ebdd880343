import HouseRules.Environment
import HouseRules.Proofs.FileTree.Names
import HouseRules.Proofs.FileTree.Removal

/-! The steps of an environment one by one: the commands that they start, when they fail, and what
is left then. Commands can be recorded with the world that each of them finds. -/

namespace HouseRules

/-! ### Recorded commands -/

/-- A command that was started, the world before it and what came of it. -/
structure Started where
  command : Command
  before : World
  result : CommandResult

/-- A world, and what was started on the way to it. -/
structure Recorded where
  world : World
  started : List Started

instance : HasWorld Recorded := ⟨Recorded.world, fun w r => { r with world := w }⟩

/-- A launcher that also keeps a record. -/
def Launcher.recorded (launch : Launcher) : Launcher Recorded := fun c r =>
  let (result, w) := launch c r.world
  (result, ⟨w, r.started ++ [⟨c, r.world, result⟩]⟩)

namespace Environment

/-- The environment with a record of its commands. -/
def recorded (e : Environment) : Environment Recorded :=
  ⟨e.layout, e.python, e.timeout, e.launch.recorded⟩

/-! ### Commands -/

section

variable {σ : Type} (e : Environment σ)

@[simp] theorem installation_inj {a b : String} :
    e.installation a = e.installation b ↔ e.layout.requirements a = e.layout.requirements b := by
  simp [installation]

theorem installation_ne_creation (source : String) : e.installation source ≠ e.creation := by
  simp [installation, creation]

theorem ruleCommand_ne_creation (i : Invocation) : e.ruleCommand i ≠ e.creation := by
  simp [ruleCommand, creation]

theorem ruleCommand_ne_installation (i : Invocation) (source : String) :
    e.ruleCommand i ≠ e.installation source := by
  simp [ruleCommand, installation]

end

/-! ### Steps -/

section

variable {σ : Type} {e : Environment σ} {s t : σ} {error : Error}

theorem run_start (c : Command) :
    (e.start c).run s = (.ok (e.launch c s).1, (e.launch c s).2) := rfl

theorem runQuietly_of_success (name : String) {c : Command}
    (h : (e.launch c s).1.isSuccess = true) :
    (e.runQuietly name c).run s = (.ok (), (e.launch c s).2) := by
  rw [runQuietly, Action.run_bind_ok (run_start c)]
  split
  · rename_i hc
    rw [hc] at h
    cases h
  · rename_i hc
    rw [hc] at h
    cases h
  · rename_i ending errors hc
    rw [hc, CommandResult.isSuccess] at h
    rw [if_neg (by simp [h])]
    rfl

theorem runQuietly_of_failure (name : String) {c : Command}
    (h : (e.launch c s).1.isSuccess = false) :
    ∃ error, (e.runQuietly name c).run s = (.error error, (e.launch c s).2) := by
  rw [runQuietly, Action.run_bind_ok (run_start c)]
  split
  · exact ⟨_, rfl⟩
  · exact ⟨_, rfl⟩
  · rename_i ending errors hc
    rw [hc, CommandResult.isSuccess] at h
    rw [if_pos (by simp [h])]
    exact ⟨_, rfl⟩

/-- Whatever comes of a call, its command was started. -/
theorem invoke_state (e : Environment σ) (i : Invocation) (s : σ) :
    ((e.invoke i).run s).2 = (e.launch (e.ruleCommand i) s).2 := by
  rw [invoke, Action.run_bind_ok (run_start (e.ruleCommand i))]
  split
  · rfl
  · rfl
  · split <;> rfl

theorem invoke_of_failure {i : Invocation}
    (h : (e.launch (e.ruleCommand i) s).1.isSuccess = false) :
    ∃ error, (e.invoke i).run s = (.error error, (e.launch (e.ruleCommand i) s).2) := by
  rw [invoke, Action.run_bind_ok (run_start (e.ruleCommand i))]
  split
  · exact ⟨_, rfl⟩
  · exact ⟨_, rfl⟩
  · rename_i ending errors hc
    rw [hc, CommandResult.isSuccess] at h
    rw [if_pos (by simp [h])]
    exact ⟨_, rfl⟩

variable [HasWorld σ]

/-- The state after what there is of the environment is removed. -/
def discarded (e : Environment σ) (s : σ) : σ := ((e.discard).run s).2

theorem orDiscard_of_ok {step : Action σ Unit} (h : step.run s = (.ok (), t)) :
    (e.orDiscard step).run s = (.ok (), t) :=
  Action.run_tryCatch_ok h _

theorem orDiscard_of_error {step : Action σ Unit} (h : step.run s = (.error error, t)) :
    (e.orDiscard step).run s = (.error error, e.discarded t) :=
  Action.run_tryCatch_error h _

/-- The environment is reused, or created, or its creation fails and it is removed. -/
theorem ensure_cases (e : Environment σ) (s : σ) :
    (e.isProvisioned s = true ∧ e.ensure.run s = (.ok false, s)) ∨
    (e.isProvisioned s = false ∧ (e.launch e.creation s).1.isSuccess = true ∧
      e.ensure.run s = (.ok true, (e.launch e.creation s).2)) ∨
    (e.isProvisioned s = false ∧ (e.launch e.creation s).1.isSuccess = false ∧
      ∃ error, e.ensure.run s = (.error error, e.discarded (e.launch e.creation s).2)) := by
  cases hp : e.isProvisioned s with
  | true =>
    refine .inl ⟨rfl, ?_⟩
    rw [ensure, Action.run_bind_ok (Action.run_get s), if_pos hp]
    rfl
  | false =>
    right
    rw [ensure, Action.run_bind_ok (Action.run_get s), if_neg (by simp [hp])]
    cases hc : (e.launch e.creation s).1.isSuccess with
    | true =>
      refine .inl ⟨rfl, rfl, ?_⟩
      exact Action.run_bind_ok (orDiscard_of_ok (runQuietly_of_success _ hc)) _
    | false =>
      obtain ⟨error, h⟩ := runQuietly_of_failure (e.python ++ " -m venv") hc
      exact .inr ⟨rfl, rfl, error, Action.run_bind_error (orDiscard_of_error h) _⟩

/-- There is nothing to install, or it is installed, or that fails. -/
theorem installRequirements_cases (e : Environment σ) (source : String) (s : σ) :
    ((HasWorld.world s).tree.isFile (e.layout.requirements source) = false ∧
      (e.installRequirements source).run s = (.ok (), s)) ∨
    ((HasWorld.world s).tree.isFile (e.layout.requirements source) = true ∧
      (e.launch (e.installation source) s).1.isSuccess = true ∧
      (e.installRequirements source).run s = (.ok (), (e.launch (e.installation source) s).2)) ∨
    ((HasWorld.world s).tree.isFile (e.layout.requirements source) = true ∧
      (e.launch (e.installation source) s).1.isSuccess = false ∧
      ∃ error, (e.installRequirements source).run s =
        (.error error, (e.launch (e.installation source) s).2)) := by
  rw [installRequirements, Action.run_bind_ok (Action.run_get s)]
  cases hf : (HasWorld.world s).tree.isFile (e.layout.requirements source) with
  | false => exact .inl ⟨rfl, rfl⟩
  | true =>
    right
    cases hc : (e.launch (e.installation source) s).1.isSuccess with
    | true => exact .inl ⟨rfl, rfl, runQuietly_of_success _ hc⟩
    | false => exact .inr ⟨rfl, rfl, runQuietly_of_failure _ hc⟩

theorem install_of_reused {source : String} (h : e.ensure.run s = (.ok false, t)) :
    (e.install source).run s = (e.installRequirements source).run t :=
  Action.run_bind_ok h _

theorem install_of_created {source : String} (h : e.ensure.run s = (.ok true, t)) :
    (e.install source).run s = (e.orDiscard (e.installRequirements source)).run t :=
  Action.run_bind_ok h _

theorem install_of_failure {source : String} (h : e.ensure.run s = (.error error, t)) :
    (e.install source).run s = (.error error, t) :=
  Action.run_bind_error h _

theorem provision_of_reused {sources : List String} (h : e.ensure.run s = (.ok false, t)) :
    (e.provision sources).run s = (.ok (), t) :=
  Action.run_bind_ok h _

theorem provision_of_created {sources : List String} (h : e.ensure.run s = (.ok true, t)) :
    (e.provision sources).run s = (e.orDiscard (sources.forM e.installRequirements)).run t :=
  Action.run_bind_ok h _

theorem provision_of_failure {sources : List String} (h : e.ensure.run s = (.error error, t)) :
    (e.provision sources).run s = (.error error, t) :=
  Action.run_bind_error h _

end

/-! ### Removal -/

theorem discarded_recorded (e : Environment Recorded) (r : Recorded) :
    e.discarded r =
      if r.world.tree.exists? e.layout.environmentDir then
        match r.world.tree.removeDirectory? e.layout.environmentDir with
        | some tree => HasWorld.withWorld { r.world with tree } r
        | none => r
      else r := rfl

theorem getLast?_environmentDir (l : Layout) :
    (FileTree.pathNames l.environmentDir).getLast? = some "rules-venv" :=
  FileTree.getLast?_pathNames_join (by decide) l.root

/-- What is left after a removal is no environment. -/
theorem isProvisioned_discarded (e : Environment Recorded) (r : Recorded) :
    e.isProvisioned (e.discarded r) = false := by
  rw [isProvisioned, discarded_recorded]
  split
  · split
    · rename_i tree h
      have gone := FileTree.exists?_of_removeDirectory? (by decide) (by decide)
        (getLast?_environmentDir e.layout) h
      rw [← Bool.not_eq_true] at gone ⊢
      exact mt FileTree.exists?_of_isDirectory gone
    · rename_i h
      rw [← Bool.not_eq_true]
      intro hd
      have removable := FileTree.removeDirectory?_isSome hd
      change (r.world.tree.removeDirectory? _).isSome = true at removable
      rw [h] at removable
      cases removable
  · rename_i h
    rw [← Bool.not_eq_true]
    exact fun hd => h (FileTree.exists?_of_isDirectory hd)

/-- A removal starts nothing. -/
theorem started_discarded (e : Environment Recorded) (r : Recorded) :
    (e.discarded r).started = r.started := by
  rw [discarded_recorded]
  split
  · split <;> rfl
  · rfl

end Environment

end HouseRules
