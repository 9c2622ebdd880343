import HouseRules.Proofs.Cache.Storage
import HouseRules.Proofs.Environment.Calls

/-! What is installed when a rule runs. An environment that a batch creates has what all sources
need. One that an update creates has what the sources need that the update gets through: when it
fails at a later source, the environment stays as it is, and later batches use it. -/

namespace HouseRules

/-- A batch of rules that is applied, or an update of all sources. -/
inductive Run where
  | apply (context : ProjectContext) (rules : List Rule)
  | update

namespace Environment

section

variable {σ : Type} [HasWorld σ] (e : Environment σ) (sources : List String)

/-! ### Runs -/

/-- The state after a run, whether it succeeds or fails. -/
def afterRun : Run → σ → σ
  | .apply context rules, s => ((Batch.apply e.runtime context sources rules).run s).2
  | .update, s => ((Batch.update e.runtime sources).run s).2

/-- The state after runs one after another. -/
def afterRuns : List Run → σ → σ
  | [], s => s
  | run :: runs, s => afterRuns runs (e.afterRun sources run s)

/-- The sources that an update gets through. -/
def passed : List String → σ → List String
  | [], _ => []
  | source :: sources, s =>
    let (result, t) := (e.install source).run s
    if result.isOk then source :: passed sources t else []

/-- The sources of which the environment has what they need after a run, where it had that of
some before: a batch that creates the environment installs for all sources, an update for those
that it gets through. -/
def covered (s : σ) (had : List String) : Run → List String
  | .apply _ _ => if e.isProvisioned s then had else sources
  | .update => (if e.isProvisioned s then had else []) ++ e.passed sources s

/-- The sources of which the environment has what they need after all runs. -/
def coveredAfter : List Run → σ → List String → List String
  | [], _, had => had
  | run :: runs, s, had =>
    coveredAfter runs (e.afterRun sources run s) (e.covered sources s had run)

/-- A run that installs for all sources if it creates the environment: every batch does so, and an
update that succeeds. -/
def Finishes (s : σ) : Run → Prop
  | .apply _ _ => True
  | .update => e.isProvisioned s = true ∨
      ∃ t, (Batch.update e.runtime sources).run s = (.ok (), t)

theorem afterRuns_append (runs more : List Run) (s : σ) :
    e.afterRuns sources (runs ++ more) s =
      e.afterRuns sources more (e.afterRuns sources runs s) := by
  induction runs generalizing s with
  | nil => rfl
  | cons run runs ih => exact ih _

theorem coveredAfter_append (runs more : List Run) (s : σ) (had : List String) :
    e.coveredAfter sources (runs ++ more) s had =
      e.coveredAfter sources more (e.afterRuns sources runs s)
        (e.coveredAfter sources runs s had) := by
  induction runs generalizing s had with
  | nil => rfl
  | cons run runs ih => exact ih _ _

theorem passed_of_ok {source : String} {rest : List String} {s t : σ}
    (h : (e.install source).run s = (.ok (), t)) :
    e.passed (source :: rest) s = source :: e.passed rest t := by
  rw [passed, h]
  rfl

theorem passed_of_error {source : String} {rest : List String} {s t : σ} {error : Error}
    (h : (e.install source).run s = (.error error, t)) : e.passed (source :: rest) s = [] := by
  rw [passed, h]
  rfl

/-- An update that succeeds gets through all sources. -/
theorem passed_eq_self {cs : List String} {s t : σ}
    (h : (cs.forM e.install).run s = (.ok (), t)) : e.passed cs s = cs := by
  induction cs generalizing s with
  | nil => rfl
  | cons c cs ih =>
    rcases run : (e.install c).run s with ⟨error | ⟨⟩, u⟩
    · have failed : ((c :: cs).forM e.install).run s = (.error error, u) :=
        Action.run_bind_error run _
      rw [failed] at h
      cases h
    · have rest : ((c :: cs).forM e.install).run s = (cs.forM e.install).run u :=
        Action.run_bind_ok run _
      rw [passed_of_ok e run, ih (rest.symm.trans h)]

theorem subset_covered {s : σ} {had : List String} {run : Run}
    (h : e.isProvisioned s = true → sources ⊆ had) (finishes : e.Finishes sources s run) :
    sources ⊆ e.covered sources s had run := by
  cases run with
  | apply context rules =>
    rw [covered]
    split
    · rename_i there
      exact h there
    · exact List.Subset.refl sources
  | update =>
    rw [covered]
    obtain there | ⟨t, done⟩ := finishes
    · rw [if_pos there]
      exact List.subset_append_of_subset_left _ (h there)
    · rw [passed_eq_self e done]
      exact List.subset_append_right _ _

/-- Runs that all finish leave no source out of an environment. -/
theorem subset_coveredAfter {s : σ} {had : List String} (runs : List Run)
    (h : e.isProvisioned s = true → sources ⊆ had)
    (finish : ∀ older run newer, runs = older ++ run :: newer →
      e.Finishes sources (e.afterRuns sources older s) run)
    (there : e.isProvisioned (e.afterRuns sources runs s) = true) :
    sources ⊆ e.coveredAfter sources runs s had := by
  induction runs generalizing s had with
  | nil => exact h there
  | cons run runs ih =>
    refine ih (fun _ => subset_covered e sources h (finish [] run runs rfl)) ?_ there
    rintro older next newer rfl
    exact finish (run :: older) next newer rfl

end

/-! ### Updates and provisions -/

section

variable {e : Environment} {sources had : List String} {r : Recorded}

/-- What the environment has at the start of a step that creates it unless it is there. -/
def kept (e : Environment) (r : Recorded) (had : List String) : List String :=
  if e.recorded.isProvisioned r then had else []

/-- An installation keeps what is known and adds its source unless it fails. -/
theorem known_install (reliable : e.Reliable sources)
    (known : e.recorded.isProvisioned r = true → e.Known sources r had) (source : String) :
    ∃ t, ((e.recorded.install source).run r = (.ok (), t) ∧
        e.recorded.isProvisioned t = true ∧ e.Known sources t (e.kept r had ++ [source])) ∨
      ∃ error, (e.recorded.install source).run r = (.error error, t) ∧
        (e.recorded.isProvisioned t = true → e.Known sources t (e.kept r had)) := by
  obtain ⟨there, run⟩ | ⟨absent, s, run, there, known⟩ | ⟨absent, error, t, run, gone⟩ :=
    known_ensure reliable r
  · rw [kept, if_pos there, install_of_reused run]
    obtain ⟨t, there, ⟨run, known⟩ | ⟨error, run, known⟩⟩ :=
      known_installRequirements reliable there (known there) source
    · exact ⟨t, .inl ⟨run, there, known⟩⟩
    · exact ⟨t, .inr ⟨error, run, fun _ => known⟩⟩
  · rw [kept, if_neg (by simp [absent]), install_of_created run]
    obtain ⟨t, there, ⟨run, known⟩ | ⟨error, run, -⟩⟩ :=
      known_installRequirements reliable there known source
    · exact ⟨t, .inl ⟨orDiscard_of_ok run, there, known⟩⟩
    · refine ⟨_, .inr ⟨error, orDiscard_of_error run, fun there => ?_⟩⟩
      rw [isProvisioned_discarded] at there
      cases there
  · rw [install_of_failure run]
    exact ⟨t, .inr ⟨error, rfl, fun there => absurd there (by simp [gone])⟩⟩

/-- An update adds the sources that it gets through. -/
theorem known_update (reliable : e.Reliable sources)
    (known : e.recorded.isProvisioned r = true → e.Known sources r had) (cs : List String)
    (there : e.recorded.isProvisioned ((cs.forM e.recorded.install).run r).2 = true) :
    e.Known sources ((cs.forM e.recorded.install).run r).2
      (e.kept r had ++ e.recorded.passed cs r) := by
  induction cs generalizing r had with
  | nil =>
    change e.recorded.isProvisioned r = true at there
    rw [kept, if_pos there, passed, List.append_nil]
    exact known there
  | cons c cs ih =>
    obtain ⟨t, ⟨run, hthere, hknown⟩ | ⟨error, run, hknown⟩⟩ := known_install reliable known c
    · have rest : ((c :: cs).forM e.recorded.install).run r =
          (cs.forM e.recorded.install).run t := Action.run_bind_ok run _
      rw [rest] at there ⊢
      have := ih (fun _ => hknown) there
      rw [kept, if_pos hthere, List.append_assoc] at this
      rwa [passed_of_ok e.recorded run]
    · have rest : ((c :: cs).forM e.recorded.install).run r = (.error error, t) :=
        Action.run_bind_error run _
      rw [rest] at there ⊢
      rw [passed_of_error e.recorded run, List.append_nil]
      exact hknown there

/-- An environment that is provided has what all sources need if it was created for that. -/
theorem known_provision (reliable : e.Reliable sources)
    (known : e.recorded.isProvisioned r = true → e.Known sources r had) :
    ∃ t, ((e.recorded.provision sources).run r = (.ok (), t) ∧
        e.recorded.isProvisioned t = true ∧
        e.Known sources t (if e.recorded.isProvisioned r then had else sources)) ∨
      ∃ error, (e.recorded.provision sources).run r = (.error error, t) ∧
        e.recorded.isProvisioned t = false := by
  obtain ⟨there, run⟩ | ⟨absent, s, run, there, known⟩ | ⟨absent, error, t, run, gone⟩ :=
    known_ensure reliable r
  · rw [if_pos there, provision_of_reused run]
    exact ⟨r, .inl ⟨rfl, there, known there⟩⟩
  · rw [if_neg (by simp [absent]), provision_of_created run]
    obtain ⟨t, there, ⟨run, known⟩ | ⟨error, run⟩⟩ := known_forM reliable there known sources
    · exact ⟨t, .inl ⟨orDiscard_of_ok run, there, known⟩⟩
    · exact ⟨_, .inr ⟨error, orDiscard_of_error run, isProvisioned_discarded _ _⟩⟩
  · rw [provision_of_failure run]
    exact ⟨t, .inr ⟨error, rfl, gone⟩⟩

end

/-! ### Runs one after another -/

section

variable {e : Environment} {sources had : List String} {r t u : Recorded}
  {calls : List Started}

/-- Calls of rules do not change what is known to be installed. -/
theorem Known.of_serves (known : e.Known sources t had) (served : e.Serves sources t u calls) :
    e.Known sources u had := by
  intro source mem need
  rw [served.started, installed_append served.isCall]
  exact known source mem ((served.needs source mem).1 need)

/-- What is known to be installed after a run. -/
theorem known_run (reliable : e.Reliable sources)
    (known : e.recorded.isProvisioned r = true → e.Known sources r had) (run : Run)
    (there : e.recorded.isProvisioned (e.recorded.afterRun sources run r) = true) :
    e.Known sources (e.recorded.afterRun sources run r)
      (e.recorded.covered sources r had run) := by
  cases run with
  | update => exact known_update reliable known sources there
  | apply context rules =>
    obtain ⟨t, ⟨run, -, known⟩ | ⟨error, run, gone⟩⟩ := known_provision reliable known
    · have rest : e.recorded.afterRun sources (.apply context rules) r =
          ((Batch.runAll e.recorded.runtime context rules).run t).2 :=
        congrArg Prod.snd (Action.run_bind_ok run _)
      obtain ⟨calls, served⟩ := Serves.runAll reliable context rules t
      rw [rest]
      exact known.of_serves served
    · have rest : e.recorded.afterRun sources (.apply context rules) r = t :=
        congrArg Prod.snd (Action.run_bind_error run _)
      rw [rest, gone] at there
      cases there

theorem known_runs (reliable : e.Reliable sources)
    (known : e.recorded.isProvisioned r = true → e.Known sources r had) (runs : List Run)
    (there : e.recorded.isProvisioned (e.recorded.afterRuns sources runs r) = true) :
    e.Known sources (e.recorded.afterRuns sources runs r)
      (e.recorded.coveredAfter sources runs r had) := by
  induction runs generalizing r had with
  | nil => exact known there
  | cons run runs ih => exact ih (known_run reliable known run) there

end

/-! ### Where a rule starts -/

section

variable {e : Environment} {sources had : List String} {r : Recorded} {context : ProjectContext}
  {rules : List Rule} {before after : List Started} {x : Started} {i : Invocation}

/-- A call that a batch starts comes after all that the provision starts. -/
theorem exists_served_of_call (reliable : e.Reliable sources)
    (known : e.recorded.isProvisioned r = true → e.Known sources r had)
    (started : (e.recorded.afterRun sources (.apply context rules) r).started =
      r.started ++ before ++ x :: after)
    (call : x.command = e.ruleCommand i) :
    ∃ t u earlier, e.Serves sources t u (earlier ++ x :: after) ∧
      r.started ++ before = t.started ++ earlier ∧
      e.Known sources t (e.recorded.covered sources r had (.apply context rules)) := by
  obtain ⟨t, provided⟩ := known_provision reliable known
  have provides : e.Provides r t := by
    have := Provides.provision e sources r
    obtain ⟨run, -⟩ | ⟨error, run, -⟩ := provided
    · rwa [run] at this
    · rwa [run] at this
  obtain ⟨steps, ht, hsteps⟩ := provides
  obtain ⟨run, -, known⟩ | ⟨error, run, -⟩ := provided
  · obtain ⟨calls, served⟩ := Serves.runAll reliable context rules t
    have rest : e.recorded.afterRun sources (.apply context rules) r =
        ((Batch.runAll e.recorded.runtime context rules).run t).2 :=
      congrArg Prod.snd (Action.run_bind_ok run _)
    rw [rest, served.started, ht, List.append_assoc, List.append_assoc,
      List.append_cancel_left_eq, List.append_eq_append_iff] at started
    obtain ⟨earlier, rfl, rfl⟩ | ⟨later, hs, hc⟩ := started
    · exact ⟨t, _, earlier, served, by rw [ht, List.append_assoc], known⟩
    · cases later with
      | nil =>
        obtain rfl : steps = before := by simpa using hs
        obtain rfl : x :: after = calls := hc
        exact ⟨t, _, [], served, by rw [ht, List.append_nil], known⟩
      | cons y later =>
        obtain ⟨rfl, -⟩ := List.cons.inj hc
        refine absurd call (hsteps x ?_ i)
        rw [hs]
        exact List.mem_append_right _ List.mem_cons_self
  · have rest : e.recorded.afterRun sources (.apply context rules) r = t :=
      congrArg Prod.snd (Action.run_bind_error run _)
    rw [rest, ht, List.append_assoc, List.append_cancel_left_eq] at started
    refine absurd call (hsteps x ?_ i)
    rw [started]
    exact List.mem_append_right _ List.mem_cons_self

/-- Where a batch starts a rule, what is installed is what the environment had before, or what all
sources need if the batch has created it. -/
theorem installed_iff_of_call (reliable : e.Reliable sources)
    (known : e.recorded.isProvisioned r = true → e.Known sources r had)
    (started : (e.recorded.afterRun sources (.apply context rules) r).started =
      r.started ++ before ++ x :: after)
    (call : x.command = e.ruleCommand i) {source : String} (mem : source ∈ sources)
    (need : e.Needs x.before source) :
    e.Installed (r.started ++ before) source ↔
      ∃ c ∈ e.recorded.covered sources r had (.apply context rules),
        e.layout.requirements c = e.layout.requirements source := by
  obtain ⟨t, u, earlier, served, split, known⟩ :=
    exists_served_of_call reliable known started call
  rw [split, installed_append fun y hy => served.isCall y (List.mem_append_left _ hy)]
  refine known source mem ((served.found x ?_ source mem).1 need)
  exact List.mem_append_right _ List.mem_cons_self

theorem known_of_absent {w : World} (absent : e.isProvisioned w = false) (runs : List Run)
    (reliable : e.Reliable sources)
    (there : e.recorded.isProvisioned (e.recorded.afterRuns sources runs ⟨w, []⟩) = true) :
    e.Known sources (e.recorded.afterRuns sources runs ⟨w, []⟩)
      (e.recorded.coveredAfter sources runs ⟨w, []⟩ []) :=
  have start : e.recorded.isProvisioned ⟨w, []⟩ = true → e.Known sources ⟨w, []⟩ [] :=
    fun there => absurd there (ne_true_of_eq_false absent)
  known_runs reliable start runs there

/-- Where a rule starts after any runs, what all sources need is installed exactly if it is
covered: an environment that a batch has created covers all sources, and one that an update has
created covers those that this update and the later ones got through. -/
theorem dependencies_installed_iff (reliable : e.Reliable sources) {w : World}
    (absent : e.isProvisioned w = false) (runs : List Run)
    (started : (e.recorded.afterRuns sources (runs ++ [.apply context rules]) ⟨w, []⟩).started =
      (e.recorded.afterRuns sources runs ⟨w, []⟩).started ++ before ++ x :: after)
    (call : x.command = e.ruleCommand i) :
    (∀ source ∈ sources, e.Needs x.before source →
      e.Installed ((e.recorded.afterRuns sources runs ⟨w, []⟩).started ++ before) source) ↔
    ∀ source ∈ sources, e.Needs x.before source →
      ∃ c ∈ e.recorded.coveredAfter sources (runs ++ [.apply context rules]) ⟨w, []⟩ [],
        e.layout.requirements c = e.layout.requirements source := by
  have known := known_of_absent absent runs reliable
  rw [afterRuns_append] at started
  rw [coveredAfter_append]
  have each (source : String) (mem : source ∈ sources) (need : e.Needs x.before source) :=
    installed_iff_of_call reliable known started call mem need
  exact forall₂_congr fun source mem => forall_congr' fun need => each source mem need

/-- If every update that creates the environment succeeds, no rule starts without what its
sources need. -/
theorem installed_of_finishes (reliable : e.Reliable sources) {w : World}
    (absent : e.isProvisioned w = false) (runs : List Run)
    (finish : ∀ older run newer, runs = older ++ run :: newer →
      e.recorded.Finishes sources (e.recorded.afterRuns sources older ⟨w, []⟩) run)
    (started : (e.recorded.afterRuns sources (runs ++ [.apply context rules]) ⟨w, []⟩).started =
      (e.recorded.afterRuns sources runs ⟨w, []⟩).started ++ before ++ x :: after)
    (call : x.command = e.ruleCommand i) {source : String} (mem : source ∈ sources)
    (need : e.Needs x.before source) :
    e.Installed ((e.recorded.afterRuns sources runs ⟨w, []⟩).started ++ before) source := by
  rw [afterRuns_append] at started
  rw [installed_iff_of_call reliable (known_of_absent absent runs reliable) started call mem need]
  have none_there : e.recorded.isProvisioned (⟨w, []⟩ : Recorded) = true → sources ⊆ [] :=
    fun there => absurd there (ne_true_of_eq_false absent)
  have all : sources ⊆ e.recorded.covered sources _ _ (.apply context rules) :=
    subset_covered e.recorded sources
      (subset_coveredAfter e.recorded sources runs none_there finish) trivial
  exact ⟨source, all mem, rfl⟩

end

/-! ### Without a network -/

namespace Offline

/-- Two sources in the cache, the second with a list of what it needs. -/
def stored : World where
  tree := ⟨[], [(["cfg"], .directory), (["cfg", "rules"], .directory),
    (["cfg", "rules", Source.hash "./b"], .directory),
    (["cfg", "rules", Source.hash "./b", "requirements.txt"], .file [] false)]⟩
  env := []
  output := []
  clock := 0
  slow := false

/-- The world with a directory for the environment. -/
def created (w : World) : World :=
  { w with tree := w.tree.set ["cfg", "rules-venv"] .directory }

/-- Environments can be created, and rules run, but nothing can be installed. -/
def launch : Launcher := fun c w =>
  if c.arguments.take 2 = ["-m", "venv"] then
    if (created w).tree.isDirectory "/cfg/rules-venv" then (.ended (.exited 0) "", created w)
    else (.ended (.exited 1) "", w)
  else (.ended (.exited (if c.isQuiet then 1 else 0)) "", w)

def environment : Environment := ⟨⟨"/cfg"⟩, "python3", none, launch⟩

def sources : List String := ["./a", "./b"]

def context : ProjectContext := ⟨"/project", [], .object []⟩

def rule : Rule := ⟨"b.check", "Check.", "b", "/cfg/rules/b/checks.py", "check", false, []⟩

def call : Invocation := ⟨"b.check", "/cfg/rules/b", "checks", "check", []⟩

theorem launch_of_uses {c : Command} (h : environment.Uses c) (w : World) :
    launch c w = (.ended (.exited (if c.isQuiet then 1 else 0)) "", w) := by
  have other : c.arguments.take 2 ≠ ["-m", "venv"] := by
    obtain ⟨source, rfl⟩ | ⟨i, rfl⟩ := h
    · simp [installation]
    · simp [ruleCommand]
  rw [launch, if_neg other]

theorem reliable : environment.Reliable sources where
  creates w h := by
    have venv : environment.creation.arguments.take 2 = ["-m", "venv"] := rfl
    change (launch environment.creation w).1.isSuccess = true at h
    show environment.isProvisioned (launch environment.creation w).2 = true
    rw [launch, if_pos venv] at h ⊢
    split at h
    · rename_i made
      rw [if_pos made]
      exact made
    · cases h
  keeps c w h there := by
    show environment.isProvisioned (launch c w).2 = true
    rwa [launch_of_uses h]
  needs c w h source _ := by
    show environment.Needs (launch c w).2 source ↔ _
    rw [launch_of_uses h]

theorem hash_ne : Source.hash "./a" ≠ Source.hash "./b" := by decide +kernel

theorem find?_environment (t : FileTree) (hcfg : t.get? ["cfg"] = some .directory)
    (hlast : ∀ target, t.get? ["cfg", "rules-venv"] ≠ some (.link target)) :
    t.find? environment.layout.environmentDir = t.get? ["cfg", "rules-venv"] := by
  have names : FileTree.pathNames environment.layout.environmentDir = ["cfg", "rules-venv"] := by
    decide
  have walked : t.walk true FileTree.linkLimit [] ["cfg", "rules-venv"] =
      some ["cfg", "rules-venv"] := by
    rw [FileTree.walk_of_directory (by decide) hcfg]
    cases h : t.get? ["cfg", "rules-venv"] with
    | none => rw [FileTree.walk_of_missing (by decide) h]; rfl
    | some entry =>
      cases entry with
      | directory => rw [FileTree.walk_of_directory (by decide) h, FileTree.walk]; rfl
      | file => rw [FileTree.walk_of_file (by decide) h]; rfl
      | link target => exact absurd h (hlast target)
  exact FileTree.find?_of_walk (by decide) (by decide) (names ▸ walked)

theorem isProvisioned_stored : environment.isProvisioned stored = false := by
  have found : stored.tree.find? environment.layout.environmentDir = none :=
    find?_environment stored.tree rfl (by simp [FileTree.get?, stored])
  show FileTree.isDirectory stored.tree _ = false
  rw [FileTree.isDirectory, found]

theorem isProvisioned_created : environment.isProvisioned (created stored) = true := by
  have found : (created stored).tree.find? environment.layout.environmentDir = some .directory :=
    find?_environment (created stored).tree rfl
      (by simp [FileTree.get?, FileTree.set, stored, created])
  show FileTree.isDirectory (created stored).tree _ = true
  rw [FileTree.isDirectory, found]

/-- What the path to a list of needs leads to. -/
theorem find?_requirements (source : String) {l : Option Location}
    (h : (created stored).tree.walk true FileTree.linkLimit [] ["cfg", "rules", Source.hash source,
      "requirements.txt"] = l) :
    (created stored).tree.find? (environment.layout.requirements source) =
      l.bind (created stored).tree.get? := by
  have names : FileTree.pathNames (environment.layout.requirements source) =
      ["cfg", "rules", Source.hash source, "requirements.txt"] := by
    rw [Layout.pathNames_requirements (by decide) (by decide)]
    rfl
  refine FileTree.find?_of_walk ?_ ?_ (names ▸ h)
  · rw [Layout.requirements_eq (by decide) (by decide)]
    simp only [String.utf8ByteSize_append, Source.utf8ByteSize_hash]
    decide
  · rw [Layout.requirements_eq (by decide) (by decide)]
    simp [Path.isAbsolute, environment]

theorem not_needs_a : ¬environment.Needs (created stored) "./a" := by
  have missing : (created stored).tree.get? ["cfg", "rules", Source.hash "./a"] = none := by
    simp [FileTree.get?, FileTree.set, stored, created, hash_ne.symm]
  have found : (created stored).tree.find? (environment.layout.requirements "./a") = none := by
    refine find?_requirements "./a" (l := none) ?_
    rw [FileTree.walk_of_directory (by decide) rfl, FileTree.walk_of_directory (by decide) rfl,
      FileTree.walk_of_missing (Source.isName_hash _) missing]
    rfl
  rw [Needs, FileTree.isFile, found]
  exact Bool.false_ne_true

theorem needs_b : environment.Needs (created stored) "./b" := by
  have directory : (created stored).tree.get? ["cfg", "rules", Source.hash "./b"] =
      some .directory := by
    simp [FileTree.get?, FileTree.set, stored, created]
  have file : (created stored).tree.get? ["cfg", "rules", Source.hash "./b", "requirements.txt"] =
      some (.file [] false) := by
    simp [FileTree.get?, FileTree.set, stored, created]
  have found : (created stored).tree.find? (environment.layout.requirements "./b") =
      some (.file [] false) := by
    have walked : (created stored).tree.walk true FileTree.linkLimit [] ["cfg", "rules",
        Source.hash "./b", "requirements.txt"] =
          some ["cfg", "rules", Source.hash "./b", "requirements.txt"] := by
      rw [FileTree.walk_of_directory (by decide) rfl, FileTree.walk_of_directory (by decide) rfl,
        FileTree.walk_of_directory (Source.isName_hash _) directory,
        FileTree.walk_of_file (by decide) file]
      rfl
    exact (find?_requirements "./b" walked).trans file
  rw [Needs, FileTree.isFile, found]

/-! ### The runs without a network -/

def creating : Started := ⟨environment.creation, stored, .ended (.exited 0) ""⟩

def installing : Started :=
  ⟨environment.installation "./b", created stored, .ended (.exited 1) ""⟩

def calling : Started := ⟨environment.ruleCommand call, created stored, .ended (.exited 0) ""⟩

theorem launch_creation : environment.recorded.launch environment.recorded.creation ⟨stored, []⟩ =
    (.ended (.exited 0) "", ⟨created stored, [creating]⟩) := by
  have venv : environment.creation.arguments.take 2 = ["-m", "venv"] := rfl
  have made : (created stored).tree.isDirectory "/cfg/rules-venv" = true := isProvisioned_created
  have one : launch environment.creation stored = (.ended (.exited 0) "", created stored) := by
    rw [launch, if_pos venv, if_pos made]
  show ((launch environment.creation stored).1, _) = _
  change ((launch environment.creation stored).1, Recorded.mk (launch environment.creation stored).2
    [⟨environment.creation, stored, (launch environment.creation stored).1⟩]) = _
  rw [one]
  rfl

theorem launch_recorded_of_uses {c : Command} (h : environment.Uses c) (w : World)
    (started : List Started) :
    environment.recorded.launch c ⟨w, started⟩ =
      (.ended (.exited (if c.isQuiet then 1 else 0)) "",
        ⟨w, started ++ [⟨c, w, .ended (.exited (if c.isQuiet then 1 else 0)) ""⟩]⟩) := by
  rw [launch_recorded]
  show ((launch c w).1, Recorded.mk (launch c w).2 (started ++ [⟨c, w, (launch c w).1⟩])) = _
  rw [launch_of_uses h]

theorem ensure_created (started : List Started) :
    environment.recorded.ensure.run ⟨created stored, started⟩ =
      (.ok false, ⟨created stored, started⟩) := by
  obtain ⟨-, run⟩ | ⟨absent, -⟩ | ⟨absent, -⟩ :=
    ensure_cases environment.recorded ⟨created stored, started⟩
  · exact run
  · exact absurd isProvisioned_created (ne_true_of_eq_false absent)
  · exact absurd isProvisioned_created (ne_true_of_eq_false absent)

/-- The first source has nothing to install in the environment that is created for it. -/
theorem install_a : (environment.recorded.install "./a").run ⟨stored, []⟩ =
    (.ok (), ⟨created stored, [creating]⟩) := by
  have ensured : environment.recorded.ensure.run ⟨stored, []⟩ =
      (.ok true, ⟨created stored, [creating]⟩) := by
    obtain ⟨there, -⟩ | ⟨-, -, run⟩ | ⟨-, failure, -⟩ :=
      ensure_cases environment.recorded ⟨stored, []⟩
    · exact absurd there (ne_true_of_eq_false isProvisioned_stored)
    · rwa [launch_creation] at run
    · rw [launch_creation] at failure
      cases failure
  rw [install_of_created ensured]
  refine orDiscard_of_ok ?_
  obtain ⟨-, run⟩ | ⟨need, -⟩ | ⟨need, -⟩ :=
    installRequirements_cases environment.recorded "./a" ⟨created stored, [creating]⟩
  · exact run
  · exact absurd need not_needs_a
  · exact absurd need not_needs_a

/-- The second source cannot be installed, and the environment stays. -/
theorem install_b : ∃ error, (environment.recorded.install "./b").run
    ⟨created stored, [creating]⟩ = (.error error, ⟨created stored, [creating, installing]⟩) := by
  have uses : environment.Uses (environment.recorded.installation "./b") := .inl ⟨"./b", rfl⟩
  rw [install_of_reused (ensure_created _)]
  obtain ⟨without, -⟩ | ⟨-, success, -⟩ | ⟨-, -, error, run⟩ :=
    installRequirements_cases environment.recorded "./b" ⟨created stored, [creating]⟩
  · exact absurd needs_b (ne_true_of_eq_false without)
  · rw [launch_recorded_of_uses uses] at success
    cases success
  · rw [launch_recorded_of_uses uses] at run
    exact ⟨error, run⟩

/-- The update creates the environment, then fails. -/
theorem afterRun_update : environment.recorded.afterRun sources .update ⟨stored, []⟩ =
    ⟨created stored, [creating, installing]⟩ := by
  obtain ⟨error, failed⟩ := install_b
  have run : (Batch.update environment.recorded.runtime sources).run ⟨stored, []⟩ =
      (.error error, ⟨created stored, [creating, installing]⟩) :=
    (Action.run_bind_ok install_a _).trans (Action.run_bind_error failed _)
  exact congrArg Prod.snd run

/-- The batch takes the environment as it is and runs its rule. -/
theorem afterRun_apply : environment.recorded.afterRun sources (.apply context [rule])
    ⟨created stored, [creating, installing]⟩ =
      ⟨created stored, [creating, installing, calling]⟩ := by
  have uses : environment.Uses (environment.recorded.ruleCommand call) := .inr ⟨call, rfl⟩
  have provided : (environment.recorded.provision sources).run
      ⟨created stored, [creating, installing]⟩ =
        (.ok (), ⟨created stored, [creating, installing]⟩) :=
    provision_of_reused (ensure_created _)
  have invoked := invoke_state environment.recorded call ⟨created stored, [creating, installing]⟩
  rw [launch_recorded_of_uses uses] at invoked
  have arguments : rule.resolveArguments context = .ok [] := rfl
  have prepared : Invocation.ofRule rule [] = .ok call := rfl
  have ran : ((Batch.runAll environment.recorded.runtime context [rule]).run
      ⟨created stored, [creating, installing]⟩).2 =
        ⟨created stored, [creating, installing, calling]⟩ := by
    rcases run : (environment.recorded.runtime.invoke call).run
      ⟨created stored, [creating, installing]⟩ with ⟨error | ⟨⟩, t⟩
    · rw [Batch.runAll_of_fails rfl (.failed arguments prepared run)]
      exact (congrArg Prod.snd run).symm.trans invoked
    · rw [Batch.runAll_of_succeeds rfl (Batch.runRule_of_succeeds arguments prepared run) rfl]
      exact (congrArg Prod.snd run).symm.trans invoked
  exact (congrArg Prod.snd (Action.run_bind_ok provided _)).trans ran

theorem started_update : environment.recorded.afterRuns sources [.update] ⟨stored, []⟩ =
    ⟨created stored, [creating, installing]⟩ := afterRun_update

theorem started_apply : (environment.recorded.afterRuns sources
    ([.update] ++ [.apply context [rule]]) ⟨stored, []⟩).started =
      (environment.recorded.afterRuns sources [.update] ⟨stored, []⟩).started ++ [] ++
        calling :: [] := by
  rw [afterRuns_append, started_update]
  show (environment.recorded.afterRun sources (.apply context [rule]) _).started = _
  rw [afterRun_apply]
  rfl

theorem not_installed_b : ¬environment.Installed ([creating, installing] ++ []) "./b" := by
  have fails : ¬environment.Installs installing "./b" := fun installs => by
    cases installs.2
  have other : ¬environment.Installs creating "./b" := fun installs =>
    environment.installation_ne_creation "./b" installs.1.symm
  rw [List.append_nil, show [creating, installing] = ([] ++ [creating]) ++ [installing] from rfl,
    installed_snoc, installed_snoc]
  rintro (installs | ⟨installs | ⟨⟨earlier, x, later, h, -⟩, -⟩, -⟩)
  · exact fails installs
  · exact other installs
  · simp at h

end Offline

open Offline in
/-- Where the environment that a failed update leaves is used, a rule starts without what the
second source needs. -/
theorem dependencies_missing : environment.Reliable sources ∧
    environment.isProvisioned stored = false ∧
    (environment.recorded.afterRuns sources ([.update] ++ [.apply context [rule]])
      ⟨stored, []⟩).started =
        (environment.recorded.afterRuns sources [.update] ⟨stored, []⟩).started ++ [] ++
          calling :: [] ∧
    calling.command = environment.ruleCommand call ∧
    ¬∀ source ∈ sources, environment.Needs calling.before source →
      environment.Installed
        ((environment.recorded.afterRuns sources [.update] ⟨stored, []⟩).started ++ []) source := by
  refine ⟨reliable, isProvisioned_stored, started_apply, rfl, fun installed => ?_⟩
  rw [started_update] at installed
  exact not_installed_b (installed "./b" (by decide) needs_b)

open Offline in
theorem dependencies_installed_iff_offline :
    (∀ source ∈ sources, environment.Needs calling.before source →
      environment.Installed
        ((environment.recorded.afterRuns sources [.update] ⟨stored, []⟩).started ++ []) source) ↔
    ∀ source ∈ sources, environment.Needs calling.before source →
      ∃ c ∈ environment.recorded.coveredAfter sources ([.update] ++ [.apply context [rule]])
        ⟨stored, []⟩ [],
        environment.layout.requirements c = environment.layout.requirements source :=
  dependencies_installed_iff reliable isProvisioned_stored [.update] started_apply rfl

end Environment

end HouseRules
