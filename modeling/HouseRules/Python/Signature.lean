import HouseRules.Python.Literal

/-! What the signature and the docstring of a function say. -/

namespace HouseRules.Python

/-! ### Keyword-only parameters -/

namespace Parameter

/-- Whether the parameters after this one are passed by keyword only. -/
def opensKeywordOnly : Parameter → Bool
  | star | rest _ => true
  | _ => false

/-- Whether this parameter takes all further keywords, so that none after it counts. -/
def closesKeywordOnly : Parameter → Bool
  | keywords _ => true
  | _ => false

end Parameter

/-- The parameters that are passed by keyword only: after the first star and before the first
two stars. -/
def keywordOnly (parameters : List Parameter) : List Parameter :=
  let counted := parameters.takeWhile (!·.closesKeywordOnly)
  (counted.dropWhile (!·.opensKeywordOnly)).drop 1

/-- A default that is no literal: its parameter and its source text. -/
structure NonLiteral where
  parameter : String
  expression : String
  deriving DecidableEq

/-- A parameter's name and default; null when it has none. Other forms have no name. -/
def declared : Parameter → Except NonLiteral (Option (String × Value))
  | .plain name _ => .ok (some (name, .null))
  | .defaulted name _ default source =>
    match default.value? with
    | some v => .ok (some (name, v))
    | none => .error ⟨name, source⟩
  | _ => .ok none

/-- The names and defaults of the keyword-only parameters, or the first default that is no
literal. Of two parameters with one name the later counts. -/
def declaredParameters (parameters : List Parameter) : Except NonLiteral Fields := do
  let pairs ← (keywordOnly parameters).mapM declared
  return Fields.ofList (pairs.filterMap id)

/-! ### Docstrings -/

/-- The docstring of a body: its first statement, if that is a single string. -/
def docstring? : List Statement → Option String
  | .expression [e] :: _ => e.text?
  | _ => none

end HouseRules.Python
