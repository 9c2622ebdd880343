import HouseRules.Batch.Report
import HouseRules.Rule.Arguments
import HouseRules.Rule.Invocation

/-! Running a batch of rules, strictly one after another. The first failure ends the batch. -/

namespace HouseRules

/-- A step that may fail and changes a state in either case. -/
abbrev Action (σ α : Type) := ExceptT Error (StateM σ) α

namespace Action

variable {σ α β : Type}

@[simp] theorem run_pure (x : α) (s : σ) : (pure x : Action σ α).run s = (.ok x, s) := rfl

@[simp] theorem run_throw (e : Error) (s : σ) : (throw e : Action σ α).run s = (.error e, s) := rfl

@[simp] theorem run_get (s : σ) : (get : Action σ σ).run s = (.ok s, s) := rfl

@[simp] theorem run_set (s t : σ) : (set t : Action σ PUnit).run s = (.ok ⟨⟩, t) := rfl

/-- A computation without a state fails or not and leaves the state as it is. -/
@[simp] theorem run_lift (x : Except Error α) (s : σ) : (liftM x : Action σ α).run s = (x, s) := rfl

theorem run_bind_ok {a : Action σ α} {s t : σ} {x : α} (h : a.run s = (.ok x, t))
    (f : α → Action σ β) : (a >>= f).run s = (f x).run t := by
  change ExceptT.bindCont f (a.run s).1 (a.run s).2 = _
  rw [h]
  rfl

/-- After a failure nothing more is done. -/
theorem run_bind_error {a : Action σ α} {s t : σ} {e : Error} (h : a.run s = (.error e, t))
    (f : α → Action σ β) : (a >>= f).run s = (.error e, t) := by
  change ExceptT.bindCont f (a.run s).1 (a.run s).2 = _
  rw [h]
  rfl

theorem run_tryCatch_ok {a : Action σ α} {s t : σ} {x : α} (h : a.run s = (.ok x, t))
    (f : Error → Action σ α) : (tryCatch a f).run s = (.ok x, t) := by
  simp only [tryCatch, tryCatchThe, MonadExceptOf.tryCatch, ExceptT.tryCatch, ExceptT.run_mk]
  change StateT.bind a.run _ s = _
  rw [StateT.bind, h]
  rfl

/-- A failure that is caught is left to the handler, in the state in which it came. -/
theorem run_tryCatch_error {a : Action σ α} {s t : σ} {e : Error} (h : a.run s = (.error e, t))
    (f : Error → Action σ α) : (tryCatch a f).run s = (f e).run t := by
  simp only [tryCatch, tryCatchThe, MonadExceptOf.tryCatch, ExceptT.tryCatch, ExceptT.run_mk]
  change StateT.bind a.run _ s = _
  rw [StateT.bind, h]
  rfl

end Action

/-- An environment in which rule functions run, over its own state. -/
structure Runtime (σ : Type) where
  /-- Creates the environment unless there is one, with what the sources need. -/
  provision : List String → Action σ Unit
  /-- Installs what one source needs. -/
  install : String → Action σ Unit
  /-- Runs one call to its end. -/
  invoke : Invocation → Action σ Unit
  /-- The time in nanoseconds. -/
  now : σ → Nat

namespace Batch

variable {σ : Type}

/-- Runs one rule and measures it. -/
def runRule (rt : Runtime σ) (context : ProjectContext) (r : Rule) : Action σ Outcome := do
  let arguments ← r.resolveArguments context
  let invocation ← Invocation.ofRule r arguments
  let started := rt.now (← get)
  rt.invoke invocation
  return ⟨r.id, r.ruleset, rt.now (← get) - started⟩

/-- Runs the enabled ones of the rules and counts the others. -/
def runAll (rt : Runtime σ) (context : ProjectContext) : List Rule → Action σ Report
  | [] => return Report.empty
  | r :: rules =>
    if r.excluded then do
      let rest ← runAll rt context rules
      return { rest with skipped := rest.skipped + 1 }
    else do
      let outcome ← runRule rt context r
      let rest ← runAll rt context rules
      return { rest with executed := outcome :: rest.executed }

/-- Provides the environment, then runs the rules. -/
def apply (rt : Runtime σ) (context : ProjectContext) (sources : List String)
    (rules : List Rule) : Action σ Report := do
  rt.provision sources
  runAll rt context rules

/-- Installs anew what the sources need. -/
def update (rt : Runtime σ) (sources : List String) : Action σ Unit :=
  sources.forM rt.install

end Batch

end HouseRules
