import HouseRules.Python.Bracket

/-! Reading expressions: operands, operators, conditions and the words around them. Which
operator binds closer makes no difference here, since an operator leaves no literal. -/

namespace HouseRules.Python

open Reader

namespace Grammar

variable (g : Grammar)

/-! ### Operands -/

/-- A literal, a name or something in brackets. -/
def atom (lead follow : Gap) : Reader Expr := do
  let l ← look lead true
  match l.token with
  | .string => g.strings l follow
  | .integer text => take l; return .integer text
  | .float text => take l; return .float text
  | .word "True" => take l; return .bool true
  | .word "False" => take l; return .bool false
  | .word "None" => take l; return .null
  | .word w => if isName w then do take l; return .place else unexpected l
  | .symbol "(" => take l; g.parentheses
  | .symbol "[" => take l; g.squareBrackets
  | .symbol "\x7b" => take l; g.braces
  | .symbol "..." => take l; return .other
  | _ => unexpected l

/-- A literal, a name or something in brackets, with its calls, attributes and subscripts. -/
def readPrimary (lead follow : Gap) : Reader Expr := do
  let first ← g.atom lead follow
  loop (fun e => do
    let l ← look follow false
    match l.token with
    | .symbol "." =>
      take l
      let _ ← name .inner
      return .inl .place
    | .symbol "(" =>
      take l
      g.arguments
      return .inl .other
    | .symbol "[" =>
      take l
      g.subscript
      return .inl .place
    | _ => return .inr e) first

/-- Whether a token after `await` makes that word an operator and not a name. -/
def followsAwait : Token → Bool
  | .word w => isName w || w ∈ ["True", "False", "None"]
  | .integer _ | .float _ | .string => true
  | .symbol s => s ∈ ["\x7b", "~", "..."]
  | .nothing => false

/-- What stands before an operand. -/
inductive Mark where
  | sign (negative : Bool)
  | other
  deriving DecidableEq

/-- An operand with the signs before it, the outermost first. -/
def signed : List Mark → Expr → Expr
  | [], e => e
  | .sign negative :: marks, e => .signed negative (signed marks e)
  | .other :: _, _ => .other

/-- An operand with what stands before it. -/
def operand (lead follow : Gap) : Reader Expr :=
  loop (fun (marks, lead) => do
    let l ← look lead true
    let mark (m : Mark) : Reader ((List Mark × Gap) ⊕ Expr) := do
      take l
      return .inl (m :: marks, .inner)
    let primary : Reader ((List Mark × Gap) ⊕ Expr) := do
      return .inr (signed marks.reverse (← g.readPrimary lead follow))
    match l.token with
    | .symbol "-" => mark (.sign true)
    | .symbol "+" => mark (.sign false)
    | .symbol "~" => mark .other
    | .symbol "*" =>
      take l
      match ← g.readPrimary .inner follow with
      | .place => return .inr (signed marks.reverse .starredPlace)
      | _ => unexpected l
    | .word "await" =>
      let before := (← get).cursor
      take l
      let n ← look follow true
      if followsAwait n.token then return .inl (.other :: marks, .inner)
      moveTo before
      primary
    | _ => primary) (([], lead) : List Mark × Gap)

/-! ### Operators -/

/-- The operators between operands that are symbols. -/
def binarySymbols : List String := [
  "+", "-", "*", "/", "//", "%", "**", "@", "<<", ">>", "&", "|", "^",
  "<", ">", "<=", ">=", "==", "!=", "<>"]

/-- Takes an operator between operands, if one is next. -/
def tryOperator (follow : Gap) : Reader Bool := do
  let l ← look follow false
  match l.token with
  | .symbol s =>
    if binarySymbols.contains s then take l; return true
    else return false
  | .word "in" => take l; return true
  | .word "not" =>
    take l
    expectWord .inner "in"
    return true
  | .word "is" =>
    take l
    let _ ← tryWord .inner "not"
    return true
  | _ => return false

/-- Operands with operators between them. -/
def chain (lead follow : Gap) : Reader Expr := do
  let first ← g.operand lead follow
  loop (fun e => do
    if ← tryOperator follow then
      let _ ← g.operand .inner follow
      return .inl .other
    else return .inr e) first

/-- A `lambda` expression after its word. -/
def lambdaTail (conditional : Bool) (follow : Gap) : Reader Expr := do
  g.lambdaParameters
  let _ ← g.expression conditional .inner follow
  return .other

/-- An operand of `and` and `or`, with the words `not` before it. -/
def negated (conditional : Bool) (lead follow : Gap) : Reader Expr :=
  loop (fun (isNegated, lead) => do
    let l ← look lead true
    let result (e : Expr) : (Bool × Gap) ⊕ Expr := .inr (if isNegated then .other else e)
    match l.token with
    | .word "not" =>
      take l
      return .inl (true, .inner)
    | .word "lambda" =>
      take l
      return result (← g.lambdaTail conditional follow)
    | .word w =>
      if isName w then
        let before := (← get).cursor
        take l
        if ← trySymbol follow ":=" then
          let _ ← g.expression conditional .inner follow
          return result .other
        moveTo before
      return result (← g.chain lead follow)
    | _ => return result (← g.chain lead follow)) ((false, lead) : Bool × Gap)

/-- Operands of `and` and `or`. -/
def junction (conditional : Bool) (lead follow : Gap) : Reader Expr := do
  let first ← g.negated conditional lead follow
  loop (fun e => do
    let l ← look follow false
    if l.token = .word "and" || l.token = .word "or" then
      take l
      let _ ← g.negated conditional .inner follow
      return .inl .other
    else return .inr e) first

/-- A whole expression: with a condition, where that is allowed, and names after `as`. -/
def readExpression (conditional : Bool) (lead follow : Gap) : Reader Expr := do
  let first ← g.junction conditional lead follow
  loop (fun e => do
    let l ← look follow false
    match l.token with
    | .word "if" =>
      if !conditional then return .inr e
      take l
      let _ ← g.expression true .inner .inner
      expectWord .inner "else"
      let _ ← g.expression true .inner follow
      return .inl .other
    | .word "as" =>
      take l
      let _ ← g.expression conditional .inner follow
      return .inl .other
    | _ => return .inr e) first

end Grammar

end HouseRules.Python
