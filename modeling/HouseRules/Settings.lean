import HouseRules.Text.Digits
import HouseRules.Text.Pieces
import HouseRules.Value.Basic

/-! The settings tree and paths into it, and the settings that select rules. -/

namespace HouseRules

/-! ### Paths into a tree -/

/-- The index that a piece of a path denotes: digits after an optional plus sign, below
`2 ^ 64`. -/
def index? (piece : List Char) : Option Nat :=
  let digits := match piece with
    | '+' :: digits => digits
    | digits => digits
  (Text.number? 10 digits).filter (· < 0x10000000000000000)

namespace Value

/-- The value that one piece of a path leads to: a field of an object or an item of an
array. -/
def child? (piece : List Char) : Value → Option Value
  | .object fields => Fields.get? (String.ofList piece) fields
  | .array items => (index? piece).bind (items[·]?)
  | _ => none

/-- The value at the end of a chain of pieces. -/
def descend? : List (List Char) → Value → Option Value
  | [], v => some v
  | piece :: rest, v => (v.child? piece).bind (descend? rest)

/-- The value at a path of pieces between dots. The empty path leads to the whole tree. -/
def lookup? (path : String) (v : Value) : Option Value :=
  if path.isEmpty then some v else v.descend? (Text.pieces '.' path.toList)

/-- A list of strings, if the value is one. -/
def strings? : Value → Option (List String)
  | .array items => items.mapM Value.string?
  | _ => none

end Value

/-! ### Selection of rules -/

/-- Where rules come from, which ids to exclude, and which of those to reinstate. -/
structure RuleSettings where
  sources : List String
  exclude : List String
  reinstate : List String
  deriving DecidableEq

namespace RuleSettings

/-- A list of strings that may be missing. -/
def listOrEmpty? : Option Value → Option (List String)
  | none => some []
  | some v => v.strings?

/-- The settings that a value denotes: an object of up to three lists, other fields ignored, or
an array of them in order. A missing list is empty. -/
def ofValue? : Value → Option RuleSettings
  | .object fields => do
    return ⟨← listOrEmpty? (Fields.get? "source" fields),
      ← listOrEmpty? (Fields.get? "exclude" fields),
      ← listOrEmpty? (Fields.get? "include" fields)⟩
  | .array items =>
    if 3 < items.length then none
    else do
      return ⟨← listOrEmpty? items[0]?, ← listOrEmpty? items[1]?, ← listOrEmpty? items[2]?⟩
  | _ => none

def hasSources (s : RuleSettings) : Bool := !s.sources.isEmpty

end RuleSettings

end HouseRules
