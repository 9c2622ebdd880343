import HouseRules.Proofs.Batch.Trace
import HouseRules.Proofs.Environment.Dependencies

/-! What a batch starts: first commands that provide the environment, which are no calls of rules,
and then calls of rules only. -/

namespace HouseRules.Environment

/-! ### Commands that provide -/

/-- Nothing but commands other than calls of rules was started between two states. -/
def Provides (e : Environment) (r t : Recorded) : Prop :=
  ∃ steps, t.started = r.started ++ steps ∧ ∀ x ∈ steps, ∀ i, x.command ≠ e.ruleCommand i

namespace Provides

variable {e : Environment} {r t u : Recorded}

theorem refl (e : Environment) (r : Recorded) : e.Provides r r :=
  ⟨[], (List.append_nil _).symm, fun _ h => absurd h List.not_mem_nil⟩

theorem trans (h : e.Provides r t) (h' : e.Provides t u) : e.Provides r u := by
  obtain ⟨steps, ht, hsteps⟩ := h
  obtain ⟨more, hu, hmore⟩ := h'
  refine ⟨steps ++ more, by rw [hu, ht, List.append_assoc], fun x hx => ?_⟩
  exact (List.mem_append.1 hx).elim (hsteps x) (hmore x)

theorem launch {c : Command} (h : ∀ i, c ≠ e.ruleCommand i) (r : Recorded) :
    e.Provides r (e.recorded.launch c r).2 := by
  refine ⟨[⟨c, r.world, (e.launch c r.world).1⟩], rfl, fun x hx => ?_⟩
  rw [List.mem_singleton.1 hx]
  exact h

theorem creation (e : Environment) (r : Recorded) :
    e.Provides r (e.recorded.launch e.recorded.creation r).2 :=
  launch (fun i h => e.ruleCommand_ne_creation i h.symm) r

theorem installation (e : Environment) (source : String) (r : Recorded) :
    e.Provides r (e.recorded.launch (e.recorded.installation source) r).2 :=
  launch (fun i h => e.ruleCommand_ne_installation i source h.symm) r

theorem discarded (e : Environment) (r : Recorded) : e.Provides r (e.recorded.discarded r) :=
  ⟨[], by rw [started_discarded, List.append_nil], fun _ h => absurd h List.not_mem_nil⟩

theorem orDiscard {step : Action Recorded Unit} (h : e.Provides r (step.run r).2) :
    e.Provides r ((e.recorded.orDiscard step).run r).2 := by
  rcases run : step.run r with ⟨error | ⟨⟩, t⟩
  · rw [orDiscard_of_error run]
    rw [run] at h
    exact h.trans (discarded e t)
  · rw [orDiscard_of_ok run]
    rwa [run] at h

theorem installRequirements (e : Environment) (source : String) (r : Recorded) :
    e.Provides r ((e.recorded.installRequirements source).run r).2 := by
  obtain ⟨-, run⟩ | ⟨-, -, run⟩ | ⟨-, -, error, run⟩ :=
    installRequirements_cases e.recorded source r
  · rw [run]
    exact refl e r
  · rw [run]
    exact installation e source r
  · rw [run]
    exact installation e source r

theorem forM (e : Environment) (cs : List String) (r : Recorded) :
    e.Provides r ((cs.forM e.recorded.installRequirements).run r).2 := by
  induction cs generalizing r with
  | nil => exact refl e r
  | cons c cs ih =>
    have first := installRequirements e c r
    rcases run : (e.recorded.installRequirements c).run r with ⟨error | ⟨⟩, t⟩
    · have rest : ((c :: cs).forM e.recorded.installRequirements).run r = (.error error, t) :=
        Action.run_bind_error run _
      rw [rest]
      rwa [run] at first
    · have rest : ((c :: cs).forM e.recorded.installRequirements).run r =
          (cs.forM e.recorded.installRequirements).run t := Action.run_bind_ok run _
      rw [rest]
      rw [run] at first
      exact first.trans (ih t)

theorem provision (e : Environment) (sources : List String) (r : Recorded) :
    e.Provides r ((e.recorded.provision sources).run r).2 := by
  obtain ⟨-, run⟩ | ⟨-, -, run⟩ | ⟨-, -, error, run⟩ := ensure_cases e.recorded r
  · rw [provision_of_reused run]
    exact refl e r
  · rw [provision_of_created run]
    exact (creation e r).trans (orDiscard (forM e sources _))
  · rw [provision_of_failure run]
    exact (creation e r).trans (discarded e _)

end Provides

/-! ### Calls of rules -/

/-- Nothing but calls of rules was started between two states, and each of them found what the
sources need as it was. -/
structure Serves (e : Environment) (sources : List String) (r u : Recorded)
    (calls : List Started) : Prop where
  started : u.started = r.started ++ calls
  isCall : ∀ x ∈ calls, ∃ i, x.command = e.ruleCommand i
  needs : ∀ source ∈ sources, (e.Needs u.world source ↔ e.Needs r.world source)
  found : ∀ x ∈ calls, ∀ source ∈ sources, (e.Needs x.before source ↔ e.Needs r.world source)
  there : e.recorded.isProvisioned r = true → e.recorded.isProvisioned u = true

namespace Serves

variable {e : Environment} {sources : List String} {r t u : Recorded} {calls more : List Started}

theorem refl (e : Environment) (sources : List String) (r : Recorded) :
    e.Serves sources r r [] where
  started := (List.append_nil _).symm
  isCall _ h := absurd h List.not_mem_nil
  needs _ _ := Iff.rfl
  found _ h := absurd h List.not_mem_nil
  there := id

theorem trans (h : e.Serves sources r t calls) (h' : e.Serves sources t u more) :
    e.Serves sources r u (calls ++ more) where
  started := by rw [h'.started, h.started, List.append_assoc]
  isCall x hx := (List.mem_append.1 hx).elim (h.isCall x) (h'.isCall x)
  needs source mem := (h'.needs source mem).trans (h.needs source mem)
  found x hx source mem := by
    obtain hx | hx := List.mem_append.1 hx
    · exact h.found x hx source mem
    · exact (h'.found x hx source mem).trans (h.needs source mem)
  there := h'.there ∘ h.there

theorem invoke (reliable : e.Reliable sources) (i : Invocation) (r : Recorded) :
    ∃ calls, e.Serves sources r ((e.recorded.invoke i).run r).2 calls := by
  rw [invoke_state, show e.recorded.ruleCommand i = e.ruleCommand i from rfl, launch_recorded]
  refine ⟨[⟨e.ruleCommand i, r.world, _⟩], rfl, ?_, ?_, ?_, ?_⟩
  · exact fun x hx => ⟨i, by rw [List.mem_singleton.1 hx]⟩
  · exact reliable.needs _ _ (.inr ⟨i, rfl⟩)
  · intro x hx source _
    rw [List.mem_singleton.1 hx]
  · exact reliable.keeps _ _ (.inr ⟨i, rfl⟩)

theorem succeed (reliable : e.Reliable sources) {is : List Invocation}
    (h : Batch.Succeed e.recorded.runtime r is u) : ∃ calls, e.Serves sources r u calls := by
  induction h with
  | nil => exact ⟨[], refl e sources _⟩
  | @cons r t u i is head _ ih =>
    obtain ⟨calls, first⟩ := invoke reliable i r
    obtain ⟨more, rest⟩ := ih
    change (e.recorded.invoke i).run r = _ at head
    rw [head] at first
    exact ⟨calls ++ more, first.trans rest⟩

theorem fails (reliable : e.Reliable sources) {context : ProjectContext} {rule : Rule}
    {error : Error} {is : List Invocation}
    (h : Batch.Fails e.recorded.runtime context r rule error is u) :
    ∃ calls, e.Serves sources r u calls := by
  cases h with
  | unresolved => exact ⟨[], refl e sources r⟩
  | uncallable => exact ⟨[], refl e sources r⟩
  | @failed _ i _ _ _ run =>
    obtain ⟨calls, served⟩ := invoke reliable i r
    change (e.recorded.invoke i).run r = _ at run
    rw [run] at served
    exact ⟨calls, served⟩

theorem runAll (reliable : e.Reliable sources) (context : ProjectContext) (rules : List Rule)
    (r : Recorded) :
    ∃ calls, e.Serves sources r ((Batch.runAll e.recorded.runtime context rules).run r).2
      calls := by
  obtain ⟨is, result, u, run, -, aborts | completes⟩ :=
    Batch.runAll_course e.recorded.runtime context rules r []
  · obtain ⟨error, rfl, before, rule, after, done, last, t, -, -, succeeded, failed, -⟩ := aborts
    obtain ⟨calls, first⟩ := succeed reliable succeeded
    obtain ⟨more, rest⟩ := fails reliable failed
    rw [run]
    exact ⟨calls ++ more, first.trans rest⟩
  · obtain ⟨report, rfl, ⟨-, succeeded⟩, -⟩ := completes
    rw [run]
    exact succeed reliable succeeded

end Serves

end HouseRules.Environment
