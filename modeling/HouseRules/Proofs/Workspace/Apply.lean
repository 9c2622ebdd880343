import HouseRules.Proofs.Environment.Calls
import HouseRules.Proofs.Environment.Tracking
import HouseRules.Workspace

/-! Applying the rules of a workspace. Nothing is started before every source has been searched,
and no rule before the environment is provided; a report says which rules ran. -/

namespace HouseRules

/-! ### Calls that succeed -/

namespace Environment

variable {e : Environment} {r t u : Recorded} {i : Invocation} {is : List Invocation}

theorem success_of_invoke (run : (e.recorded.invoke i).run r = (.ok (), t)) :
    (e.launch (e.ruleCommand i) r.world).1.isSuccess = true := by
  cases h : (e.launch (e.ruleCommand i) r.world).1.isSuccess with
  | true => rfl
  | false =>
    obtain ⟨error, failed⟩ := invoke_of_failure (e := e.recorded) (s := r) h
    rw [failed] at run
    cases run

/-- Calls that all succeed are one process each, in their order. -/
theorem started_succeed (h : Batch.Succeed e.recorded.runtime r is u) :
    ∃ calls, u.started = r.started ++ calls ∧
      List.Forall₂ (fun i (x : Started) =>
        x.command = e.ruleCommand i ∧ x.result.isSuccess = true) is calls := by
  induction h with
  | nil => exact ⟨[], (List.append_nil _).symm, .nil⟩
  | @cons r t u i is head _ ih =>
    obtain ⟨calls, started, each⟩ := ih
    change (e.recorded.invoke i).run r = _ at head
    have state := e.recorded.invoke_state i r
    rw [head] at state
    refine ⟨⟨e.ruleCommand i, r.world, (e.launch (e.ruleCommand i) r.world).1⟩ :: calls, ?_,
      .cons ⟨rfl, success_of_invoke head⟩ each⟩
    change t = _ at state
    rw [started, state]
    exact List.append_assoc ..

end Environment

namespace Workspace

/-! ### Before anything is started -/

section

open HasWorld (world)

variable {σ : Type} [HasWorld σ] {s : Workspace} {launch : Launcher σ} {x : σ}

theorem apply_of_error {error : Error} (h : s.list (world x).tree = .error error) :
    (s.apply launch).run x = (.error error, x) := by
  rw [apply, Action.run_bind_ok (Action.run_get x)]
  exact Action.run_bind_error (by rw [Action.run_lift, h]) _

theorem apply_of_nil (h : s.list (world x).tree = .ok []) :
    (s.apply launch).run x = (.ok none, x) := by
  rw [apply, Action.run_bind_ok (Action.run_get x),
    Action.run_bind_ok (by rw [Action.run_lift, h])]
  rfl

/-- With rules to run, what is done is a batch. -/
theorem apply_of_ne_nil {rules : List Rule} {result : Except Error Report} {y : σ}
    (h : s.list (world x).tree = .ok rules) (ne_nil : rules ≠ [])
    (batch : (Batch.apply (s.environment launch).runtime s.context s.sources rules).run x =
      (result, y)) :
    (s.apply launch).run x = (result.map some, y) := by
  rw [apply, Action.run_bind_ok (Action.run_get x),
    Action.run_bind_ok (by rw [Action.run_lift, h]), if_neg (by simpa using ne_nil)]
  cases result with
  | error error => exact Action.run_bind_error batch _
  | ok report =>
    rw [Action.run_bind_ok batch]
    rfl

theorem list_eq {t : FileTree} {found : Except DiscoveryError (List Rule)}
    (h : Discovery.listRules t s.loaded.config.rules s.layout.rulesDir = found) :
    s.list t = found.mapError Error.ofDiscovery := by
  rw [list, h]

end

/-! ### With a record -/

variable {s : Workspace} {launch : Launcher} {r : Recorded}

/-- The commands and the result are the same without a record. -/
theorem tracks_apply (s : Workspace) (launch : Launcher) :
    Action.Tracks (s.apply launch) (s.apply launch.recorded) := by
  intro r
  cases h : s.list r.world.tree with
  | error error => rw [apply_of_error (x := r.world) h, apply_of_error (x := r) h]
  | ok rules =>
    by_cases nil : rules = []
    · subst nil
      rw [apply_of_nil (x := r.world) h, apply_of_nil (x := r) h]
    · have plain := (s.environment launch).tracks_apply s.context s.sources rules r
      rcases batch : (Batch.apply (s.environment launch).recorded.runtime s.context s.sources
        rules).run r with ⟨result, t⟩
      rw [batch] at plain
      have recorded : (s.apply launch.recorded).run r = (result.map some, t) :=
        apply_of_ne_nil h nil batch
      rw [apply_of_ne_nil (x := r.world) h nil plain, recorded]

/-- An environment that cannot be provided ends the batch before any rule. -/
theorem apply_of_unprovided {rules : List Rule} (h : s.list r.world.tree = .ok rules)
    (ne_nil : rules ≠ []) {error : Error} {u : Recorded}
    (unprovided : ((s.environment launch).recorded.provision s.sources).run r = (.error error, u)) :
    (s.apply launch.recorded).run r = (.error error, u) ∧
      (s.environment launch).Provides r u := by
  have batch : (Batch.apply (s.environment launch).recorded.runtime s.context s.sources rules).run
      r = (.error error, u) := Action.run_bind_error unprovided _
  have ends : (s.apply launch.recorded).run r = ((.error error : Except Error Report).map some, u) :=
    apply_of_ne_nil h ne_nil batch
  refine ⟨ends, ?_⟩
  have provides := Environment.Provides.provision (s.environment launch) s.sources r
  rwa [unprovided] at provides

/-- A batch that comes to a report has provided the environment and run each enabled rule. -/
theorem batch_of_report {context : ProjectContext} {sources : List String} {rules : List Rule}
    {e : Environment} {report : Report} {t : Recorded}
    (batch : (Batch.apply e.recorded.runtime context sources rules).run r = (.ok report, t)) :
    report.Accounts rules ∧ ∃ provided calls is, t.started = r.started ++ provided ++ calls ∧
      (∀ x ∈ provided, ∀ i, x.command ≠ e.ruleCommand i) ∧
      Batch.Prepared context (rules.filter Rule.isEnabled) is ∧
      List.Forall₂ (fun i (x : Started) =>
        x.command = e.ruleCommand i ∧ x.result.isSuccess = true) is calls := by
  have provides := Environment.Provides.provision e sources r
  rcases run : (e.recorded.provision sources).run r with ⟨error | ⟨⟩, u⟩
  · have ends : (Batch.apply e.recorded.runtime context sources rules).run r = (.error error, u) :=
      Action.run_bind_error run _
    cases ends.symm.trans batch
  · rw [run] at provides
    obtain ⟨provided, before, others⟩ := provides
    have ends : (Batch.apply e.recorded.runtime context sources rules).run r =
        (Batch.runAll e.recorded.runtime context rules).run u := Action.run_bind_ok run _
    rw [ends] at batch
    obtain ⟨is, result, v, plain, -, aborts | completes⟩ :=
      Batch.runAll_course e.recorded.runtime context rules u []
    · obtain ⟨error, rfl, -⟩ := aborts
      cases plain.symm.trans batch
    · obtain ⟨report', rfl, ⟨prepared, succeed⟩, accounts⟩ := completes
      cases plain.symm.trans batch
      obtain ⟨calls, started, each⟩ := Environment.started_succeed succeed
      exact ⟨accounts, provided, calls, is, by rw [started, before], others, prepared, each⟩

/-! ### The outcome -/

/-- Applying the rules of a workspace, with a record of what is started and without. If the rules
cannot be listed or there are none, nothing is started and nothing changes. If the environment
cannot be provided, no rule is started. A report names the enabled rules in their order and counts
the others, and each enabled rule has had one process, after all that provides the environment. -/
theorem apply_outcome (s : Workspace) (launch : Launcher) (r : Recorded) :
    ∃ result t, (s.apply launch).run r.world = (result, t.world) ∧
      (s.apply launch.recorded).run r = (result, t) ∧
      (∀ error, Discovery.listRules r.world.tree s.loaded.config.rules s.layout.rulesDir =
          .error error → result = .error (.ofDiscovery error) ∧ t = r) ∧
      (Discovery.listRules r.world.tree s.loaded.config.rules s.layout.rulesDir = .ok [] →
        result = .ok none ∧ t = r) ∧
      (∀ rules error u,
        Discovery.listRules r.world.tree s.loaded.config.rules s.layout.rulesDir = .ok rules →
        rules ≠ [] →
        ((s.environment launch).recorded.provision s.sources).run r = (.error error, u) →
        result = .error error ∧ ∃ provided, t.started = r.started ++ provided ∧
          ∀ x ∈ provided, ∀ i, x.command ≠ (s.environment launch).ruleCommand i) ∧
      (∀ report, result = .ok (some report) → ∃ rules,
        Discovery.listRules r.world.tree s.loaded.config.rules s.layout.rulesDir = .ok rules ∧
        report.executed.map Outcome.ruleId = (rules.filter Rule.isEnabled).map Rule.id ∧
        report.skipped = rules.countP Rule.excluded ∧
        ∃ provided calls is, t.started = r.started ++ provided ++ calls ∧
          (∀ x ∈ provided, ∀ i, x.command ≠ (s.environment launch).ruleCommand i) ∧
          Batch.Prepared s.context (rules.filter Rule.isEnabled) is ∧
          List.Forall₂ (fun i (x : Started) =>
            x.command = (s.environment launch).ruleCommand i ∧ x.result.isSuccess = true)
            is calls) := by
  have tracked := tracks_apply s launch r
  rcases run : (s.apply launch.recorded).run r with ⟨result, t⟩
  rw [run] at tracked
  refine ⟨result, t, tracked, rfl, fun error h => ?_, fun h => ?_,
    fun rules error u h ne_nil unprovided => ?_, fun report h => ?_⟩
  · have ends : (s.apply launch.recorded).run r = _ := apply_of_error (list_eq h)
    cases run.symm.trans ends
    exact ⟨rfl, rfl⟩
  · have ends : (s.apply launch.recorded).run r = _ := apply_of_nil (list_eq h)
    cases run.symm.trans ends
    exact ⟨rfl, rfl⟩
  · obtain ⟨ends, provides⟩ := apply_of_unprovided (list_eq h) ne_nil unprovided
    cases run.symm.trans ends
    exact ⟨rfl, provides⟩
  · subst h
    cases found : Discovery.listRules r.world.tree s.loaded.config.rules s.layout.rulesDir with
    | error error => cases run.symm.trans (apply_of_error (x := r) (list_eq found))
    | ok rules =>
      refine ⟨rules, rfl, ?_⟩
      by_cases nil : rules = []
      · subst nil
        cases run.symm.trans (apply_of_nil (x := r) (list_eq found))
      · rcases batch : (Batch.apply (s.environment launch).recorded.runtime s.context s.sources
          rules).run r with ⟨error | report', u⟩
        · cases run.symm.trans (apply_of_ne_nil (x := r) (list_eq found) nil batch)
        · cases run.symm.trans (apply_of_ne_nil (x := r) (list_eq found) nil batch)
          obtain ⟨accounts, started⟩ := batch_of_report batch
          have ids := congrArg (List.map Prod.fst) accounts.executed
          rw [List.map_map, List.map_map] at ids
          exact ⟨ids, accounts.skipped, started⟩

end Workspace

end HouseRules
