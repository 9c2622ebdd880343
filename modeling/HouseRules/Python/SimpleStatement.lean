import HouseRules.Python.Expression

/-! Reading simple statements: those that stand on one line, more of them after semicolons. -/

namespace HouseRules.Python

open Reader

namespace Grammar

variable (g : Grammar)

/-! ### Expressions and assignments -/

/-- The symbols of assignments that combine the old value with another. -/
def combiningSymbols : List String := [
  "+=", "-=", "*=", "/=", "//=", "%=", "@=", "&=", "|=", "^=", ">>=", "<<=", "**="]

/-- What stands on one side of an assignment or makes up a statement: expressions, or `yield`
with what follows it. -/
def side (lead : Gap) : Reader (List Expr × Bool) := do
  let l ← look lead true
  if l.token = .word "yield" then
    take l
    return ([← g.yieldTail .line], false)
  else return (← g.expressions lead .line, true)

/-- A statement that starts with an expression: the expressions themselves, or an assignment,
perhaps of several targets one after another, or a declaration of a type. -/
def expressionStatement (lead : Gap) : Reader Statement := do
  let (first, isValues) ← g.side lead
  loop (fun (values, isValues, isAssigned) => do
    let l ← look .line false
    let isTarget := isValues && Expr.allTargets values
    let result : Statement :=
      if isAssigned || !isValues then .other else .expression first
    match l.token with
    | .symbol "=" =>
      if !isTarget then unexpected l
      take l
      let (values, isValues) ← g.side .inner
      return .inl (values, isValues, true)
    | .symbol ":" =>
      if !isTarget || isAssigned then unexpected l
      take l
      let _ ← g.expression true .inner .line
      if ← trySymbol .line "=" then
        let (values, isValues) ← g.side .inner
        return .inl (values, isValues, true)
      else return .inr .other
    | .symbol s =>
      if combiningSymbols.contains s then
        if !isTarget then unexpected l
        take l
        let (values, isValues) ← g.side .inner
        return .inl (values, isValues, true)
      else return .inr result
    | _ => return .inr result) (first, isValues, false)

/-- Fails unless a simple statement may end at the next token. -/
def endOfStatement : Reader Unit := do
  let l ← look .line false
  if l.stop = .newline || l.token = .symbol ";" then return ()
  unexpected l

/-- A statement that starts with an expression, up to where it ends. -/
def wholeExpressionStatement : Reader Statement := do
  let s ← g.expressionStatement .statement
  endOfStatement
  return s

/-! ### Imports -/

/-- Names with dots between them. -/
def dottedName (lead follow : Gap) : Reader Unit := do
  let _ ← name lead
  loop (fun (_ : Unit) => do
    if ← trySymbol follow "." then
      let _ ← name .inner
      return .inl ()
    else return .inr ()) ()

/-- Imported names, each perhaps under another one. A comma after the last is allowed. -/
def importList (lead follow : Gap) : Reader Unit := do
  let entry (lead : Gap) : Reader Unit := do
    dottedName lead follow
    if ← tryWord follow "as" then
      let _ ← name .inner
  entry lead
  loop (fun (_ : Unit) => do
    let comma ← look follow false
    if comma.token ≠ .symbol "," then return .inr ()
    take comma
    let l ← look follow false
    match l.token with
    | .word _ =>
      entry follow
      return .inl ()
    | _ => return .inr ()) ()

/-- The dots before the name of a package. -/
def leadingDots : Reader Bool :=
  loop (fun found => do
    let l ← look .inner false
    match l.start.rest with
    | '.' :: _ =>
      moveTo l.start.next
      return .inl true
    | _ => return .inr found) false

/-- What follows the word `from` at the start of a statement. -/
def fromImport : Reader Unit := do
  let isRelative ← leadingDots
  let l ← look .inner false
  if isRelative && l.token = .word "import" then take l
  else
    dottedName .inner .inner
    expectWord .inner "import"
  let l ← look .inner false
  match l.token with
  | .symbol "*" => take l
  | .symbol "(" =>
    take l
    importList .inner .bracket
    expectSymbol .bracket ")"
  | _ => importList .inner .line

/-! ### Statements that start with a word -/

/-- Names between commas. -/
def names : Reader Unit := do
  let _ ← name .inner
  loop (fun (_ : Unit) => do
    if ← trySymbol .line "," then
      let _ ← name .inner
      return .inl ()
    else return .inr ()) ()

/-- Expressions, if any follow on the line. -/
def optionalExpressions : Reader Unit := do
  let l ← look .line true
  if l.token.startsExpression then
    let _ ← g.expressions .line .line

/-- What follows the word `assert`. -/
def assertion : Reader Unit := do
  let _ ← g.expression true .inner .line
  loop (fun (_ : Unit) => do
    if ← trySymbol .line "," then
      let _ ← g.expression true .inner .line
      return .inl ()
    else return .inr ()) ()

/-- A `print` statement after its word: expressions, or a stream after an arrow and expressions
after commas. -/
def printTail : Reader Unit := do
  if ← trySymbol .line ">>" then
    let _ ← g.expression true .inner .line
    loop (fun (_ : Unit) => do
      if ← trySymbol .line "," then
        let l ← look .line true
        if l.token.startsExpression then
          let _ ← g.expression true .line .line
          return .inl ()
        else return .inr ()
      else return .inr ()) ()
  else
    let _ ← g.expressions .inner .line

/-- An `exec` statement after its word: a string or a name, and perhaps where to run it. -/
def execTail : Reader Unit := do
  let l ← look .inner true
  match l.token with
  | .string => let _ ← g.stringToken l
  | _ => let _ ← name .inner
  if ← tryWord .line "in" then
    let _ ← g.expression true .inner .line
    loop (fun (_ : Unit) => do
      if ← trySymbol .line "," then
        let _ ← g.expression true .inner .line
        return .inl ()
      else return .inr ()) ()

/-- The alias of a type after its word. -/
def typeAliasTail : Reader Unit := do
  let _ ← g.expression true .inner .inner
  expectSymbol .inner "="
  let _ ← g.expression true .inner .line

/-- A statement of an earlier version of the language: noted at its place, and read to where it
ends. -/
def legacy (l : Look) (tail : Reader Unit) : Reader Statement := do
  take l
  noteLegacy l.start.place
  tail
  endOfStatement
  return .other

/-- One simple statement. -/
def simpleStatement : Reader Statement := do
  let l ← look .statement true
  let after (tail : Reader Unit) : Reader Statement := do
    take l
    tail
    return .other
  match l.token with
  | .word "import" => after (importList .inner .line)
  | .word "from" => after fromImport
  | .word "pass" | .word "break" | .word "continue" => after (pure ())
  | .word "return" => after g.optionalExpressions
  | .word "del" => after do let _ ← g.expressions .inner .line
  | .word "raise" => after do
      g.optionalExpressions
      if ← tryWord .line "from" then
        let _ ← g.expression true .inner .line
  | .word "assert" => after g.assertion
  | .word "global" | .word "nonlocal" => after names
  | .word "print" => do
    let before := (← get).cursor
    take l
    let n ← look .line false
    moveTo before
    if n.token = .symbol ">>" then legacy l g.printTail
    else either g.wholeExpressionStatement (legacy l g.printTail)
  | .word "exec" => either g.wholeExpressionStatement (legacy l g.execTail)
  | .word "type" => either g.wholeExpressionStatement (after g.typeAliasTail)
  | _ => g.expressionStatement .statement

/-- Simple statements on one line, with semicolons between them and perhaps one at the end. -/
def simpleLine : Reader (List Statement) :=
  loop (fun acc => do
    let acc := (← g.simpleStatement) :: acc
    let l ← look .line false
    if l.stop = .newline then return .inr acc.reverse
    if l.token ≠ .symbol ";" then unexpected l
    take l
    let n ← look .line true
    if n.stop = .newline then return .inr acc.reverse
    else return .inl acc) []

end Grammar

end HouseRules.Python
