import HouseRules.Json.Reader
import HouseRules.Json.Writer
import HouseRules.Rule.Basic

/-! Rules as JSON text. A rule is written as an object of its seven fields. It is read from
such an object, with the fields in any order and further ones ignored, or from an array of the
seven values in order. -/

namespace HouseRules.Rule

open Json (Tree)

/-! ### Writing -/

/-- The compact JSON text of a rule. -/
def write (r : Rule) : List Char :=
  Json.writeObject [
    ("id", Json.writeString r.id),
    ("description", Json.writeString r.description),
    ("ruleset", Json.writeString r.ruleset),
    ("location", Json.writeString r.location),
    ("function", Json.writeString r.function),
    ("excluded", Json.write (.bool r.excluded)),
    ("parameters", Json.write (.object r.parameters))]

/-! ### Reading -/

/-- The seven fields of a rule, each with its tree once it is known. -/
structure Draft where
  id : Option Tree
  description : Option Tree
  ruleset : Option Tree
  location : Option Tree
  function : Option Tree
  excluded : Option Tree
  parameters : Option Tree

namespace Draft

def empty : Draft := ⟨none, none, none, none, none, none, none⟩

/-- A field given for the first time. -/
def once (old : Option Tree) (new : Tree) : Option (Option Tree) :=
  match old with
  | none => some (some new)
  | some _ => none

/-- The draft with one member more. A field may be given once; other names are ignored. -/
def set (d : Draft) (name : String) (t : Tree) : Option Draft :=
  match name with
  | "id" => (once d.id t).map fun x => { d with id := x }
  | "description" => (once d.description t).map fun x => { d with description := x }
  | "ruleset" => (once d.ruleset t).map fun x => { d with ruleset := x }
  | "location" => (once d.location t).map fun x => { d with location := x }
  | "function" => (once d.function t).map fun x => { d with function := x }
  | "excluded" => (once d.excluded t).map fun x => { d with excluded := x }
  | "parameters" => (once d.parameters t).map fun x => { d with parameters := x }
  | _ => some d

/-- The draft of the members of an object. -/
def ofMembers? : List (List Char × Tree) → Draft → Option Draft
  | [], d => some d
  | (name, t) :: ms, d => do
    let name ← Json.string? name
    let d ← d.set name t
    ofMembers? ms d

end Draft

def readString : Tree → Option String
  | .string text => Json.string? text
  | _ => none

def readBool : Tree → Option Bool
  | .bool b => some b
  | _ => none

/-- How deep arrays and objects may be nested in a text. -/
def depthLimit : Nat := 127

/-- The parameters of a rule. The rule itself counts for the depth. -/
def readParameters (t : Tree) : Option Fields :=
  match t with
  | .object members =>
    if t.depth + 1 ≤ depthLimit then Json.valueMembers? members [] else none
  | _ => none

/-- The rule of a draft in which every field is known. -/
def ofDraft? (d : Draft) : Option Rule := do
  return {
    id := ← readString (← d.id)
    description := ← readString (← d.description)
    ruleset := ← readString (← d.ruleset)
    location := ← readString (← d.location)
    function := ← readString (← d.function)
    excluded := ← readBool (← d.excluded)
    parameters := ← readParameters (← d.parameters) }

/-- The rule that the syntax of a JSON text denotes. -/
def ofTree? : Tree → Option Rule
  | .object members => (Draft.ofMembers? members .empty).bind ofDraft?
  | .array [id, description, ruleset, location, function, excluded, parameters] =>
    ofDraft? ⟨some id, some description, some ruleset, some location, some function,
      some excluded, some parameters⟩
  | _ => none

/-- The rule that a JSON text denotes. -/
def read? (text : String) : Option Rule := (Tree.read? text.toList).bind ofTree?

end HouseRules.Rule
