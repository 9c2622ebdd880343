import HouseRules.Json.Writer
import HouseRules.Text.Pieces

/-! What a batch of rules reports. -/

namespace HouseRules

/-- A rule that ran, and the nanoseconds it took. -/
structure Outcome where
  ruleId : String
  ruleset : String
  elapsed : Nat
  deriving DecidableEq

/-- The rules that ran, in order, and how many the filter excluded. -/
structure Report where
  executed : List Outcome
  skipped : Nat
  deriving DecidableEq

def nanosecondsPerSecond : Nat := 1000000000

/-- The compact JSON text of an outcome. -/
def Outcome.write (o : Outcome) : List Char :=
  Json.writeObject [
    ("rule_id", Json.writeString o.ruleId),
    ("ruleset", Json.writeString o.ruleset),
    ("elapsed", Json.writeObject [
      ("secs", (Text.decimal (o.elapsed / nanosecondsPerSecond)).toList),
      ("nanos", (Text.decimal (o.elapsed % nanosecondsPerSecond)).toList)])]

namespace Report

def empty : Report := ⟨[], 0⟩

def executedCount (r : Report) : Nat := r.executed.length

/-- The nanoseconds that all rules together took. -/
def totalElapsed (r : Report) : Nat := r.executed.foldl (fun total o => total + o.elapsed) 0

/-- The compact JSON text of a report. -/
def write (r : Report) : List Char :=
  Json.writeObject [
    ("executed", '[' :: Text.joinPieces ',' (r.executed.map Outcome.write) ++ [']']),
    ("skipped", (Text.decimal r.skipped).toList)]

end Report

end HouseRules
