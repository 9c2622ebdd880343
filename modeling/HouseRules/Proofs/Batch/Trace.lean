import HouseRules.Batch.Recording
import Mathlib.Data.List.Forall2

/-! What a batch asks of its runtime. The environment is provided first. Then the enabled rules
are called in their order, up to the first one whose arguments, call or run fails; that failure
is the result. The rules that the filter excluded have no part in it but to be counted. -/

namespace HouseRules

variable {σ : Type}

/-! ### Recorded calls -/

/-- A step with a call added to the record. -/
def Action.recording (call : Call) (a : Action σ Unit) : Action (σ × List Call) Unit :=
  fun (s, calls) => ((a.run s).1, ((a.run s).2, calls ++ [call]))

theorem Action.run_recording (call : Call) (a : Action σ Unit) (s : σ) (calls : List Call) :
    (Action.recording call a).run (s, calls) = ((a.run s).1, ((a.run s).2, calls ++ [call])) := rfl

/-- A runtime that also keeps a record of its calls. -/
def Runtime.recorded (rt : Runtime σ) : Runtime (σ × List Call) where
  provision sources := .recording (.provision sources) (rt.provision sources)
  install source := .recording (.install source) (rt.install source)
  invoke i := .recording (.invoke i) (rt.invoke i)
  now s := rt.now s.1

/-! ### Reports -/

namespace Report

/-- What a report says of a batch that was completed. -/
structure Accounts (report : Report) (rules : List Rule) : Prop where
  executed : report.executed.map (fun o => (o.ruleId, o.ruleset)) =
    (rules.filter Rule.isEnabled).map fun r => (r.id, r.ruleset)
  skipped : report.skipped = rules.countP Rule.excluded
  total : report.executedCount + report.skipped = rules.length

theorem Accounts.empty : Report.empty.Accounts [] := ⟨rfl, rfl, rfl⟩

theorem Accounts.excluded {report : Report} {r : Rule} {rules : List Rule}
    (accounts : report.Accounts rules) (h : r.excluded = true) :
    Accounts { report with skipped := report.skipped + 1 } (r :: rules) where
  executed := by simpa [Rule.isEnabled, h] using accounts.executed
  skipped := by simp [h, accounts.skipped]
  total := by
    have := accounts.total
    simp only [Report.executedCount, List.length_cons] at this ⊢
    omega

theorem Accounts.enabled {report : Report} {r : Rule} {rules : List Rule}
    (accounts : report.Accounts rules) (h : r.excluded = false) (elapsed : Nat) :
    Accounts { report with executed := ⟨r.id, r.ruleset, elapsed⟩ :: report.executed }
      (r :: rules) where
  executed := by simpa [Rule.isEnabled, h] using accounts.executed
  skipped := by simp [h, accounts.skipped]
  total := by
    have := accounts.total
    simp only [Report.executedCount, List.length_cons] at this ⊢
    omega

end Report

namespace Batch

/-! ### How a batch goes -/

/-- The rules in order, each with the call that its arguments in the context give. -/
def Prepared (context : ProjectContext) : List Rule → List Invocation → Prop :=
  List.Forall₂ fun r i =>
    ∃ arguments, r.resolveArguments context = .ok arguments ∧
      Invocation.ofRule r arguments = .ok i

/-- The calls in order, made from one state to another, all succeed. -/
inductive Succeed (rt : Runtime σ) : σ → List Invocation → σ → Prop where
  | nil {s : σ} : Succeed rt s [] s
  | cons {s t u : σ} {i : Invocation} {is : List Invocation}
      (head : (rt.invoke i).run s = (.ok (), t)) (tail : Succeed rt t is u) :
      Succeed rt s (i :: is) u

/-- A rule fails in a state, after the calls that it still makes. -/
inductive Fails (rt : Runtime σ) (context : ProjectContext) (s : σ) (r : Rule) :
    Error → List Invocation → σ → Prop where
  | unresolved {e : Error} (h : r.resolveArguments context = .error e) :
      Fails rt context s r e [] s
  | uncallable {e : Error} {arguments : Fields} (h : r.resolveArguments context = .ok arguments)
      (hi : Invocation.ofRule r arguments = .error e) : Fails rt context s r e [] s
  | failed {e : Error} {arguments : Fields} {i : Invocation} {t : σ}
      (h : r.resolveArguments context = .ok arguments) (hi : Invocation.ofRule r arguments = .ok i)
      (run : (rt.invoke i).run s = (.error e, t)) : Fails rt context s r e [i] t

/-- The enabled rules up to one that fails: the error and the calls that are made. -/
def Aborts (rt : Runtime σ) (context : ProjectContext) (s : σ) (enabled : List Rule) (e : Error)
    (is : List Invocation) (u : σ) : Prop :=
  ∃ before r after done last t, enabled = before ++ r :: after ∧ Prepared context before done ∧
    Succeed rt s done t ∧ Fails rt context t r e last u ∧ is = done ++ last

/-- All enabled rules run: the calls that are made. -/
def Completes (rt : Runtime σ) (context : ProjectContext) (s : σ) (enabled : List Rule)
    (is : List Invocation) (u : σ) : Prop :=
  Prepared context enabled is ∧ Succeed rt s is u

/-- How a batch goes: the state it starts in, its calls, its result and the state it ends in. -/
inductive Course (rt : Runtime σ) (context : ProjectContext) (sources : List String)
    (rules : List Rule) (s : σ) : List Call → Except Error Report → σ → Prop where
  | unprovided {e : Error} {t : σ} (h : (rt.provision sources).run s = (.error e, t)) :
      Course rt context sources rules s [.provision sources] (.error e) t
  | aborted {e : Error} {is : List Invocation} {t u : σ}
      (h : (rt.provision sources).run s = (.ok (), t))
      (batch : Aborts rt context t (rules.filter Rule.isEnabled) e is u) :
      Course rt context sources rules s (.provision sources :: is.map .invoke) (.error e) u
  | completed {report : Report} {is : List Invocation} {t u : σ}
      (h : (rt.provision sources).run s = (.ok (), t))
      (batch : Completes rt context t (rules.filter Rule.isEnabled) is u)
      (accounts : Report.Accounts report rules) :
      Course rt context sources rules s (.provision sources :: is.map .invoke) (.ok report) u

/-! ### One rule -/

theorem runRule_of_fails {rt : Runtime σ} {context : ProjectContext} {s u : σ} {r : Rule}
    {e : Error} {is : List Invocation} (h : Fails rt context s r e is u) :
    (runRule rt context r).run s = (.error e, u) := by
  cases h with
  | unresolved h =>
    exact Action.run_bind_error (by rw [Action.run_lift, h]) _
  | uncallable h hi =>
    rw [runRule, Action.run_bind_ok (by rw [Action.run_lift, h])]
    exact Action.run_bind_error (by rw [Action.run_lift, hi]) _
  | failed h hi run =>
    rw [runRule, Action.run_bind_ok (by rw [Action.run_lift, h]),
      Action.run_bind_ok (by rw [Action.run_lift, hi]), Action.run_bind_ok (Action.run_get s)]
    exact Action.run_bind_error run _

theorem runRule_of_succeeds {rt : Runtime σ} {context : ProjectContext} {s t : σ} {r : Rule}
    {arguments : Fields} {i : Invocation} (h : r.resolveArguments context = .ok arguments)
    (hi : Invocation.ofRule r arguments = .ok i) (run : (rt.invoke i).run s = (.ok (), t)) :
    (runRule rt context r).run s = (.ok ⟨r.id, r.ruleset, rt.now t - rt.now s⟩, t) := by
  rw [runRule, Action.run_bind_ok (by rw [Action.run_lift, h]),
    Action.run_bind_ok (by rw [Action.run_lift, hi]), Action.run_bind_ok (Action.run_get s),
    Action.run_bind_ok run, Action.run_bind_ok (Action.run_get t)]
  rfl

/-- A rule either fails or runs. -/
theorem fails_or_succeeds (rt : Runtime σ) (context : ProjectContext) (s : σ) (r : Rule) :
    (∃ e is u, Fails rt context s r e is u) ∨
      ∃ arguments i t, r.resolveArguments context = .ok arguments ∧
        Invocation.ofRule r arguments = .ok i ∧ (rt.invoke i).run s = (.ok (), t) := by
  cases h : r.resolveArguments context with
  | error e => exact .inl ⟨e, [], s, .unresolved h⟩
  | ok arguments =>
    cases hi : Invocation.ofRule r arguments with
    | error e => exact .inl ⟨e, [], s, .uncallable h hi⟩
    | ok i =>
      rcases run : (rt.invoke i).run s with ⟨_ | _, t⟩
      · exact .inl ⟨_, [i], t, .failed h hi run⟩
      · exact .inr ⟨arguments, i, t, rfl, hi, run⟩

/-- A rule fails in the same way when the calls are recorded, and its calls are. -/
theorem Fails.recorded {rt : Runtime σ} {context : ProjectContext} {s u : σ} {r : Rule}
    {e : Error} {is : List Invocation} (h : Fails rt context s r e is u) (calls : List Call) :
    Fails rt.recorded context (s, calls) r e is (u, calls ++ is.map .invoke) := by
  cases h with
  | unresolved h => simpa using Fails.unresolved h
  | uncallable h hi => simpa using Fails.uncallable h hi
  | failed h hi run =>
    refine .failed h hi ?_
    rw [Runtime.recorded, Action.run_recording, run]
    rfl

/-! ### All rules -/

section

variable {rt : Runtime σ} {context : ProjectContext} {s t u : σ} {r : Rule} {rules : List Rule}
  {result : Except Error Report}

theorem runAll_of_excluded (h : r.excluded = true)
    (rest : (runAll rt context rules).run s = (result, u)) :
    (runAll rt context (r :: rules)).run s =
      (result.map fun report => { report with skipped := report.skipped + 1 }, u) := by
  rw [runAll, if_pos h]
  cases result with
  | error e => exact Action.run_bind_error rest _
  | ok report => rw [Action.run_bind_ok rest]; rfl

theorem runAll_of_fails (h : r.excluded = false) {e : Error} {is : List Invocation}
    (fails : Fails rt context s r e is u) :
    (runAll rt context (r :: rules)).run s = (.error e, u) := by
  rw [runAll, if_neg (by simp [h])]
  exact Action.run_bind_error (runRule_of_fails fails) _

theorem runAll_of_succeeds (h : r.excluded = false) {o : Outcome}
    (run : (runRule rt context r).run s = (.ok o, t))
    (rest : (runAll rt context rules).run t = (result, u)) :
    (runAll rt context (r :: rules)).run s =
      (result.map fun report => { report with executed := o :: report.executed }, u) := by
  rw [runAll, if_neg (by simp [h]), Action.run_bind_ok run]
  cases result with
  | error e => exact Action.run_bind_error rest _
  | ok report => rw [Action.run_bind_ok rest]; rfl

end

theorem Aborts.cons {rt : Runtime σ} {context : ProjectContext} {s t u : σ} {r : Rule}
    {rules : List Rule} {e : Error} {arguments : Fields} {i : Invocation} {is : List Invocation}
    (h : r.resolveArguments context = .ok arguments) (hi : Invocation.ofRule r arguments = .ok i)
    (run : (rt.invoke i).run s = (.ok (), t)) (rest : Aborts rt context t rules e is u) :
    Aborts rt context s (r :: rules) e (i :: is) u := by
  obtain ⟨before, k, after, done, last, v, rfl, prepared, succeed, fails, rfl⟩ := rest
  exact ⟨r :: before, k, after, i :: done, last, v, rfl, .cons ⟨arguments, h, hi⟩ prepared,
    .cons run succeed, fails, rfl⟩

/-- Running the rules from a state, with and without a record of the calls. -/
theorem runAll_course (rt : Runtime σ) (context : ProjectContext) (rules : List Rule) (s : σ)
    (calls : List Call) :
    ∃ is result u, (runAll rt context rules).run s = (result, u) ∧
      (runAll rt.recorded context rules).run (s, calls) =
        (result, (u, calls ++ is.map .invoke)) ∧
      ((∃ e, result = .error e ∧ Aborts rt context s (rules.filter Rule.isEnabled) e is u) ∨
        ∃ report, result = .ok report ∧
          Completes rt context s (rules.filter Rule.isEnabled) is u ∧ report.Accounts rules) := by
  induction rules generalizing s calls with
  | nil =>
    exact ⟨[], .ok .empty, s, rfl, by simp [runAll], .inr ⟨.empty, rfl, ⟨.nil, .nil⟩,
      Report.Accounts.empty⟩⟩
  | cons r rules ih =>
    cases h : r.excluded with
    | true =>
      obtain ⟨is, result, u, plain, recorded, cases⟩ := ih s calls
      have skip : (r :: rules).filter Rule.isEnabled = rules.filter Rule.isEnabled := by
        simp [Rule.isEnabled, h]
      rw [skip]
      refine ⟨is, _, u, runAll_of_excluded h plain, runAll_of_excluded h recorded, ?_⟩
      obtain ⟨e, rfl, aborts⟩ | ⟨report, rfl, completes, accounts⟩ := cases
      · exact .inl ⟨e, rfl, aborts⟩
      · exact .inr ⟨_, rfl, completes, accounts.excluded h⟩
    | false =>
      have keep : (r :: rules).filter Rule.isEnabled = r :: rules.filter Rule.isEnabled := by
        simp [Rule.isEnabled, h]
      rw [keep]
      obtain ⟨e, is, u, fails⟩ | ⟨arguments, i, t, ha, hi, run⟩ := fails_or_succeeds rt context s r
      · exact ⟨is, .error e, u, runAll_of_fails h fails, runAll_of_fails h (fails.recorded calls),
          .inl ⟨e, rfl, [], r, _, [], is, s, rfl, .nil, .nil, fails, rfl⟩⟩
      · have run' : (rt.recorded.invoke i).run (s, calls) =
            (.ok (), (t, calls ++ [.invoke i])) := by
          rw [Runtime.recorded, Action.run_recording, run]
        obtain ⟨is, result, u, plain, recorded, cases⟩ := ih t (calls ++ [.invoke i])
        refine ⟨i :: is, _, u, runAll_of_succeeds h (runRule_of_succeeds ha hi run) plain, ?_, ?_⟩
        · rw [runAll_of_succeeds h (runRule_of_succeeds ha hi run') recorded]
          simp [Runtime.recorded]
        · obtain ⟨e, rfl, aborts⟩ | ⟨report, rfl, ⟨prepared, succeed⟩, accounts⟩ := cases
          · exact .inl ⟨e, rfl, aborts.cons ha hi run⟩
          · exact .inr ⟨_, rfl, ⟨.cons ⟨arguments, ha, hi⟩ prepared, .cons run succeed⟩,
              accounts.enabled h _⟩

/-- The excluded rules change nothing but their number. -/
theorem runAll_of_filter {rt : Runtime σ} {context : ProjectContext} {rules : List Rule} {s u : σ}
    {result : Except Error Report}
    (h : (runAll rt context (rules.filter Rule.isEnabled)).run s = (result, u)) :
    (runAll rt context rules).run s =
      (result.map fun report => { report with skipped := rules.countP Rule.excluded }, u) := by
  induction rules generalizing s u result with
  | nil => obtain ⟨rfl, rfl⟩ := h; rfl
  | cons r rules ih =>
    cases hr : r.excluded with
    | true =>
      have skip : (r :: rules).filter Rule.isEnabled = rules.filter Rule.isEnabled := by
        simp [Rule.isEnabled, hr]
      rw [skip] at h
      rw [runAll_of_excluded hr (ih h), List.countP_cons_of_pos hr]
      cases result <;> rfl
    | false =>
      have keep : (r :: rules).filter Rule.isEnabled = r :: rules.filter Rule.isEnabled := by
        simp [Rule.isEnabled, hr]
      rw [keep] at h
      rw [List.countP_cons_of_neg (by simp [hr])]
      obtain ⟨e, is, v, fails⟩ | ⟨arguments, i, t, ha, hi, run⟩ := fails_or_succeeds rt context s r
      · rw [runAll_of_fails hr fails] at h ⊢
        obtain ⟨rfl, rfl⟩ := Prod.mk.inj h
        rfl
      · have one := runRule_of_succeeds ha hi run
        rcases rest : (runAll rt context (rules.filter Rule.isEnabled)).run t with ⟨kept, v⟩
        rw [runAll_of_succeeds hr one rest] at h
        rw [runAll_of_succeeds hr one (ih rest)]
        obtain ⟨rfl, rfl⟩ := Prod.mk.inj h
        cases kept <;> rfl

/-! ### The whole batch -/

/-- A batch goes one of three ways: the environment cannot be provided, the first enabled rule
that fails ends it, or all enabled rules run. Its result and its final state do not depend on the
calls being recorded, and excluded rules do nothing in it but count. -/
theorem apply_course (rt : Runtime σ) (context : ProjectContext) (sources : List String)
    (rules : List Rule) (s : σ) :
    ∃ calls result u,
      (apply rt context sources rules).run s = (result, u) ∧
      (apply rt.recorded context sources rules).run (s, []) = (result, (u, calls)) ∧
      Course rt context sources rules s calls result u ∧
      ∃ kept, (apply rt.recorded context sources (rules.filter Rule.isEnabled)).run (s, []) =
          (kept, (u, calls)) ∧
        result = kept.map fun report => { report with skipped := rules.countP Rule.excluded } := by
  rcases h : (rt.provision sources).run s with ⟨e | ⟨⟩, t⟩
  · have h' : (rt.recorded.provision sources).run (s, []) =
        (.error e, (t, [.provision sources])) := by
      rw [Runtime.recorded, Action.run_recording, h]
      rfl
    exact ⟨_, .error e, t, Action.run_bind_error h _, Action.run_bind_error h' _, .unprovided h,
      .error e, Action.run_bind_error h' _, rfl⟩
  · have h' : (rt.recorded.provision sources).run (s, []) =
        (.ok (), (t, [.provision sources])) := by
      rw [Runtime.recorded, Action.run_recording, h]
      rfl
    obtain ⟨is, result, u, plain, recorded, cases⟩ :=
      runAll_course rt context rules t [.provision sources]
    rcases filtered : (runAll rt.recorded context (rules.filter Rule.isEnabled)).run
      (t, [.provision sources]) with ⟨kept, v⟩
    obtain ⟨hresult, hstate⟩ := Prod.mk.inj (recorded.symm.trans (runAll_of_filter filtered))
    refine ⟨.provision sources :: is.map .invoke, result, u, ?_, ?_, ?_, kept, ?_, hresult⟩
    · exact (Action.run_bind_ok h _).trans plain
    · exact (Action.run_bind_ok h' _).trans recorded
    · obtain ⟨e, rfl, aborts⟩ | ⟨report, rfl, completes, accounts⟩ := cases
      · exact .aborted h aborts
      · exact .completed h completes accounts
    · exact (Action.run_bind_ok h' _).trans (filtered.trans (by rw [← hstate]; rfl))

end Batch

end HouseRules
