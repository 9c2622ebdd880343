import HouseRules.Proofs.Environment.Record

/-! What the sources need and what is installed of it, in the environment that was created last,
and how the steps of the environment change that. -/

namespace HouseRules

namespace Environment

/-! ### Needs and installations -/

/-- A list of what the source needs is stored. -/
def Needs (e : Environment) (w : World) (source : String) : Prop :=
  w.tree.isFile (e.layout.requirements source) = true

/-- The command created the environment. -/
def Creates (e : Environment) (x : Started) : Prop :=
  x.command = e.creation ∧ x.result.isSuccess = true

/-- The command installed what the source needs. -/
def Installs (e : Environment) (x : Started) (source : String) : Prop :=
  x.command = e.installation source ∧ x.result.isSuccess = true

/-- What the source needs was installed, and no environment was created after that. -/
def Installed (e : Environment) (started : List Started) (source : String) : Prop :=
  ∃ earlier x later, started = earlier ++ x :: later ∧ e.Installs x source ∧
    ∀ y ∈ later, ¬e.Creates y

/-- The command is one of those that work inside the environment. -/
def Uses (e : Environment) (c : Command) : Prop :=
  (∃ source, c = e.installation source) ∨ ∃ i, c = e.ruleCommand i

/-- Commands do what they are for: one that creates the environment and succeeds leaves it there,
and the others neither remove it nor change which sources have a list of what they need. -/
structure Reliable (e : Environment) (sources : List String) : Prop where
  creates : ∀ w, (e.launch e.creation w).1.isSuccess = true →
    e.isProvisioned (e.launch e.creation w).2 = true
  keeps : ∀ c w, e.Uses c → e.isProvisioned w = true → e.isProvisioned (e.launch c w).2 = true
  needs : ∀ c w, e.Uses c → ∀ source ∈ sources,
    (e.Needs (e.launch c w).2 source ↔ e.Needs w source)

theorem installed_snoc {e : Environment} {started : List Started} {x : Started}
    {source : String} : e.Installed (started ++ [x]) source ↔
      e.Installs x source ∨ (e.Installed started source ∧ ¬e.Creates x) := by
  constructor
  · rintro ⟨earlier, y, later, h, installs, kept⟩
    obtain rfl | ⟨later, z, rfl⟩ := List.eq_nil_or_concat later
    · obtain ⟨-, h⟩ := List.append_inj' h rfl
      obtain rfl := List.singleton_inj.1 h
      exact .inl installs
    · rw [List.concat_eq_append] at h kept
      rw [← List.cons_append, ← List.append_assoc] at h
      obtain ⟨rfl, last⟩ := List.append_inj' h rfl
      obtain rfl := List.singleton_inj.1 last
      refine .inr ⟨⟨earlier, y, later, rfl, installs, fun y hy => kept y ?_⟩, kept x ?_⟩
      · exact List.mem_append_left _ hy
      · exact List.mem_append_right _ (List.mem_singleton.2 rfl)
  · rintro (installs | ⟨⟨earlier, y, later, rfl, installs, kept⟩, hx⟩)
    · exact ⟨started, x, [], rfl, installs, fun y hy => absurd hy List.not_mem_nil⟩
    · refine ⟨earlier, y, later ++ [x], by simp, installs, fun z hz => ?_⟩
      obtain hz | hz := List.mem_append.1 hz
      · exact kept z hz
      · rw [List.mem_singleton.1 hz]
        exact hx

/-- Calls of rules neither install anything nor create an environment. -/
theorem installed_append {e : Environment} {started calls : List Started} {source : String}
    (h : ∀ x ∈ calls, ∃ i, x.command = e.ruleCommand i) :
    e.Installed (started ++ calls) source ↔ e.Installed started source := by
  induction calls generalizing started with
  | nil => rw [List.append_nil]
  | cons x calls ih =>
    obtain ⟨i, hx⟩ := h x List.mem_cons_self
    have hi : ¬e.Installs x source := fun installs =>
      e.ruleCommand_ne_installation i source (hx ▸ installs.1)
    have hc : ¬e.Creates x := fun creates => e.ruleCommand_ne_creation i (hx ▸ creates.1)
    rw [List.append_cons, ih fun y hy => h y (List.mem_cons_of_mem x hy), installed_snoc]
    simp [hi, hc]

/-! ### What is known to be installed -/

/-- Exactly the sources that have the same list as one of the given are those whose list was
installed, among the ones that have a list. -/
def Known (e : Environment) (sources : List String) (r : Recorded) (had : List String) : Prop :=
  ∀ source ∈ sources, e.Needs r.world source →
    (e.Installed r.started source ↔
      ∃ c ∈ had, e.layout.requirements c = e.layout.requirements source)

section

variable {e : Environment} {sources had : List String} {r : Recorded}

theorem launch_recorded (e : Environment) (c : Command) (r : Recorded) :
    e.recorded.launch c r = ((e.launch c r.world).1,
      ⟨(e.launch c r.world).2, r.started ++ [⟨c, r.world, (e.launch c r.world).1⟩]⟩) := rfl

/-- An environment that has just been created has nothing. -/
theorem known_creation (h : (e.launch e.creation r.world).1.isSuccess = true) :
    e.Known sources (e.recorded.launch e.creation r).2 [] := by
  intro source _ _
  rw [launch_recorded, installed_snoc]
  have hi (x : Started) (hx : x.command = e.creation) : ¬e.Installs x source :=
    fun installs => e.installation_ne_creation source (installs.1.symm.trans hx)
  simp [hi, Creates, h]

/-- An installation adds its source if it succeeds. -/
theorem known_installation (reliable : e.Reliable sources) (known : e.Known sources r had)
    (source : String) :
    e.Known sources (e.recorded.launch (e.recorded.installation source) r).2
      (if (e.recorded.launch (e.recorded.installation source) r).1.isSuccess then had ++ [source]
        else had) := by
  change e.Known sources (e.recorded.launch (e.installation source) r).2
    (if (e.launch (e.installation source) r.world).1.isSuccess then had ++ [source] else had)
  intro other mem need
  have kept : e.Needs r.world other :=
    (reliable.needs _ r.world (.inl ⟨source, rfl⟩) other mem).1 need
  have hc : ∀ x : Started, x.command = e.installation source → ¬e.Creates x := fun x hx creates =>
    e.installation_ne_creation source (hx.symm.trans creates.1)
  rw [launch_recorded, installed_snoc, known other mem kept]
  cases h : (e.launch (e.installation source) r.world).1.isSuccess with
  | true =>
    simp only [Installs, h, installation_inj, hc, not_false_eq_true, and_true, if_true,
      List.mem_append, List.mem_singleton, or_and_right, exists_or, exists_eq_left]
    exact or_comm
  | false => simp [Installs, h, hc]

/-- A step that installs what a source needs keeps the environment and adds the source unless it
fails. -/
theorem known_installRequirements (reliable : e.Reliable sources)
    (there : e.recorded.isProvisioned r = true) (known : e.Known sources r had)
    (source : String) :
    ∃ t, e.recorded.isProvisioned t = true ∧
      (((e.recorded.installRequirements source).run r = (.ok (), t) ∧
          e.Known sources t (had ++ [source])) ∨
        ∃ error, (e.recorded.installRequirements source).run r = (.error error, t) ∧
          e.Known sources t had) := by
  have after := known_installation reliable known source
  have keeps : e.recorded.isProvisioned
      (e.recorded.launch (e.recorded.installation source) r).2 = true :=
    reliable.keeps (e.installation source) r.world (.inl ⟨source, rfl⟩) there
  obtain ⟨without, run⟩ | ⟨-, success, run⟩ | ⟨-, failure, error, run⟩ :=
    installRequirements_cases e.recorded source r
  · refine ⟨r, there, .inl ⟨run, fun other mem need => ?_⟩⟩
    -- a source with the same list would have it
    have ne : e.layout.requirements source ≠ e.layout.requirements other := by
      intro same
      have : e.Needs r.world source := by rw [Needs, same]; exact need
      exact absurd this (by rw [Needs]; exact ne_true_of_eq_false without)
    simp [known other mem need, or_and_right, exists_or, ne]
  · rw [if_pos success] at after
    exact ⟨_, keeps, .inl ⟨run, after⟩⟩
  · rw [if_neg (ne_true_of_eq_false failure)] at after
    exact ⟨_, keeps, .inr ⟨error, run, after⟩⟩

/-- Installing for several sources in turn. -/
theorem known_forM (reliable : e.Reliable sources) (there : e.recorded.isProvisioned r = true)
    (known : e.Known sources r had) (cs : List String) :
    ∃ t, e.recorded.isProvisioned t = true ∧
      (((cs.forM e.recorded.installRequirements).run r = (.ok (), t) ∧
          e.Known sources t (had ++ cs)) ∨
        ∃ error, (cs.forM e.recorded.installRequirements).run r = (.error error, t)) := by
  induction cs generalizing r had with
  | nil => exact ⟨r, there, .inl ⟨rfl, by rwa [List.append_nil]⟩⟩
  | cons c cs ih =>
    obtain ⟨t, there, ⟨run, known⟩ | ⟨error, run, -⟩⟩ :=
      known_installRequirements reliable there known c
    · obtain ⟨u, there, ⟨rest, known⟩ | ⟨error, rest⟩⟩ := ih there known
      · refine ⟨u, there, .inl ⟨(Action.run_bind_ok run _).trans rest, ?_⟩⟩
        rwa [List.append_assoc] at known
      · exact ⟨u, there, .inr ⟨error, (Action.run_bind_ok run _).trans rest⟩⟩
    · exact ⟨t, there, .inr ⟨error, Action.run_bind_error run _⟩⟩

/-- The environment is reused as it is, or created with nothing in it, or it is not there after
a failure. -/
theorem known_ensure (reliable : e.Reliable sources) (r : Recorded) :
    (e.recorded.isProvisioned r = true ∧ e.recorded.ensure.run r = (.ok false, r)) ∨
    (e.recorded.isProvisioned r = false ∧ ∃ t, e.recorded.ensure.run r = (.ok true, t) ∧
      e.recorded.isProvisioned t = true ∧ e.Known sources t []) ∨
    (e.recorded.isProvisioned r = false ∧ ∃ error t,
      e.recorded.ensure.run r = (.error error, t) ∧ e.recorded.isProvisioned t = false) := by
  obtain ⟨there, run⟩ | ⟨absent, success, run⟩ | ⟨absent, -, error, run⟩ :=
    ensure_cases e.recorded r
  · exact .inl ⟨there, run⟩
  · exact .inr (.inl ⟨absent, _, run, reliable.creates r.world success, known_creation success⟩)
  · exact .inr (.inr ⟨absent, error, _, run, isProvisioned_discarded _ _⟩)

end

end Environment

end HouseRules
