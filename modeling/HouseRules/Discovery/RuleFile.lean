import HouseRules.Docstring
import HouseRules.Python.Module
import HouseRules.Python.Signature
import HouseRules.Rule.Basic

/-! The rules in one rule file: its direct functions, each with a key in its docstring and with
literal defaults. -/

namespace HouseRules.RuleFile

open Python (Statement Parameter)

/-- A function that stands directly in a file. -/
structure Function where
  name : String
  parameters : List Parameter
  body : List Statement

/-- The functions that stand directly in a file, asynchronous ones left out. -/
def functions (m : Python.Module) : List Function :=
  m.filterMap fun
    | .function false name parameters body => some ⟨name, parameters, body⟩
    | _ => none

/-- What rules of a file have in common, and which ids are enabled. -/
structure Origin where
  location : String
  ruleset : String
  isEnabled : String → Bool

/-- The rule of a function. -/
def rule (o : Origin) (f : Function) : Except DiscoveryError Rule :=
  match (Python.docstring? f.body).bind RuleDoc.parse? with
  | none => .error (.missingKey o.location f.name)
  | some doc =>
    match Python.declaredParameters f.parameters with
    | .error e => .error (.unsupportedDefault o.location f.name e.parameter e.expression)
    | .ok parameters => .ok {
        id := doc.key
        description := doc.description
        ruleset := o.ruleset
        location := o.location
        function := f.name
        excluded := !o.isEnabled doc.key
        parameters }

/-- The rules of a file, or the error of the first function that is none. -/
def rules (o : Origin) (m : Python.Module) : Except DiscoveryError (List Rule) :=
  (functions m).mapM (rule o)

/-- The rules in a source text. -/
def parse (o : Origin) (source : String) : Except DiscoveryError (List Rule) :=
  match Python.Module.read source.toList with
  | .error place => .error (.malformed o.location place)
  | .ok m => rules o m

end HouseRules.RuleFile
