import HouseRules.Rule.Basic

/-! The plain listing of rules: a block for each rule and a line with the counts. The columns
are as wide as the longest id and ruleset in bytes; padding counts characters. -/

namespace HouseRules.Listing

/-- A text followed by as many spaces as it lacks characters of a width. -/
def pad (width : Nat) (s : String) : String :=
  s ++ String.ofList (List.replicate (width - s.length) ' ')

/-- The greatest number of bytes among texts. -/
def widest (texts : List String) : Nat := (texts.map String.utf8ByteSize).foldl max 0

/-- The rows of one rule: id, ruleset, state and first line of the description; the further
lines; the location. -/
def rows (idWidth rulesetWidth : Nat) (r : Rule) : List String :=
  let state := if r.isEnabled then "enabled" else "excluded"
  let first := pad idWidth r.id ++ "  " ++ pad rulesetWidth r.ruleset ++ "  " ++ pad 8 state ++
    "  " ++ r.summary
  let indent := pad (idWidth + rulesetWidth + 14) ""
  first :: ((Text.linesOf r.description).drop 1 ++ [r.location]).map (indent ++ ·)

/-- The line with the counts. -/
def counts (rules : List Rule) : String :=
  let excluded := rules.countP Rule.excluded
  Text.decimal rules.length ++ " rule(s), " ++ Text.decimal (rules.length - excluded) ++
    " enabled, " ++ Text.decimal excluded ++ " excluded"

/-- All rows of a listing. -/
def allRows (rules : List Rule) : List String :=
  let idWidth := widest (rules.map Rule.id)
  let rulesetWidth := widest (rules.map Rule.ruleset)
  rules.flatMap (rows idWidth rulesetWidth) ++ [counts rules]

/-- The text of a listing: each row ends with a line feed. -/
def text (rules : List Rule) : String := String.join ((allRows rules).map (· ++ "\n"))

end HouseRules.Listing
