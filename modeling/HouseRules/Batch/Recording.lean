import HouseRules.Batch.Basic

/-! A runtime that runs nothing: it records what is asked of it and fails where it is told
to. -/

namespace HouseRules

/-- What was asked of a runtime. -/
inductive Call where
  | provision (sources : List String)
  | install (source : String)
  | invoke (invocation : Invocation)

/-- Where a recording runtime fails. -/
inductive Failure where
  | provision
  | install (source : String)
  | invoke (ruleId : String)
  deriving DecidableEq

namespace Recording

/-- Adds a call to the record, then fails or not. -/
def record (call : Call) (failure : Option Error) : Action (List Call) Unit := do
  modify (· ++ [call])
  match failure with
  | some e => throw e
  | none => return ()

/-- The runtime that fails at the given points. -/
def runtime (failures : List Failure) : Runtime (List Call) where
  provision sources := record (.provision sources) <|
    if Failure.provision ∈ failures then some (.provisioning "venv creation failed" none) else none
  install source := record (.install source) <|
    if Failure.install source ∈ failures then
      some (.provisioning ("pip install failed for " ++ source) none)
    else none
  invoke i := record (.invoke i) <|
    if Failure.invoke i.ruleId ∈ failures then some (.execution i.ruleId "exit status: 1")
    else none
  now _ := 0

end Recording

end HouseRules
