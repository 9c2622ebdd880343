import HouseRules.Python.CasePattern
import HouseRules.Python.SimpleStatement

/-! Reading compound statements: those that hold blocks. -/

namespace HouseRules.Python

open Reader

namespace Grammar

variable (g : Grammar)

/-! ### Blocks -/

/-- The rest of an indented block: statements until a line stands to the left of it. -/
def blockTail {α : Type} (statement : Reader (List α)) : Reader (List α) :=
  loop (fun acc => do
    let l ← look .statement true
    match l.stop with
    | .token => return .inl ((← statement).reverse ++ acc)
    | _ =>
      popIndent
      return .inr acc.reverse) []

/-- The block after a colon: indented lines, or simple statements on the same line, or
nothing. -/
def suite : Reader (List Statement) := do
  expectSymbol .inner ":"
  let l ← look .suite true
  match l.stop with
  | .indent width =>
    pushIndent width
    blockTail g.statement
  | .newline => return []
  | _ => g.simpleLine

/-- A block in which only its being there counts. -/
def block : Reader Unit := do
  let _ ← g.suite

/-- Takes a word at the start of a statement, if it is next. -/
def tryClause (w : String) : Reader Bool := tryWord .statement w

/-- An `else` clause, if one follows. -/
def optionalElse : Reader Unit := do
  if ← tryClause "else" then g.block

/-- What follows the word `if`. -/
def ifTail : Reader Unit := do
  let branch : Reader Unit := do
    let _ ← g.expression true .inner .inner
    g.block
  branch
  loop (fun (_ : Unit) => do
    if ← tryClause "elif" then
      branch
      return .inl ()
    else return .inr ()) ()
  g.optionalElse

def whileTail : Reader Unit := do
  let _ ← g.expression true .inner .inner
  g.block
  g.optionalElse

def forTail : Reader Unit := do
  g.targets
  let _ ← g.expressions .inner .inner
  g.block
  g.optionalElse

def withTail : Reader Unit := do
  let _ ← g.expressions .inner .inner
  g.block

/-- An `except` clause after its word. -/
def exceptTail : Reader Unit := do
  let _ ← trySymbol .inner "*"
  let l ← look .inner true
  if l.token.startsExpression then
    let _ ← g.expressions .inner .inner
  g.block

/-- What follows the word `try`: at least one clause of the two kinds. -/
def tryTail : Reader Unit := do
  g.block
  let hasExcept ← loop (fun found => do
    if ← tryClause "except" then
      g.exceptTail
      return .inl true
    else return .inr found) false
  if hasExcept then g.optionalElse
  if ← tryClause "finally" then g.block
  else if !hasExcept then
    unexpected (← look .statement false)

/-! ### Functions and classes -/

/-- The type parameters of a function, a class or an alias, if there are any. -/
def optionalTypeParameters : Reader Unit := do
  if ← trySymbol .inner "[" then
    loop (fun (_ : Unit) => do
      let l ← look .bracket true
      match l.token with
      | .symbol "**" =>
        take l
        let _ ← name .inner
      | _ =>
        let _ ← g.expression true .bracket .bracket
        if ← trySymbol .bracket ":" then
          let _ ← g.expression true .inner .bracket
      let l ← look .bracket false
      match l.token with
      | .symbol "]" =>
        take l
        return .inr ()
      | .symbol "," =>
        take l
        if ← trySymbol .bracket "]" then return .inr ()
        return .inl ()
      | _ => unexpected l) ()

/-- The annotation of a parameter, if there is one. -/
def optionalAnnotation : Reader Bool := do
  if ← trySymbol .bracket ":" then
    let _ ← g.expression true .inner .bracket
    return true
  else return false

/-- A parameter with a known name after that: annotated or not, with a default or not. -/
def parameterTail (name : String) : Reader Parameter := do
  let annotated ← g.optionalAnnotation
  if ← trySymbol .bracket "=" then
    let (default, source) ← withSource .inner (g.expression true .inner .bracket)
    return .defaulted name annotated default source
  else return .plain name annotated

/-- One parameter. -/
def parameter : Reader Parameter := do
  let l ← look .bracket false
  let starred (f : Bool → Parameter) : Reader Parameter := do
    let n ← look .bracket false
    match ← g.primary .inner .bracket with
    | .place => return f (← g.optionalAnnotation)
    | _ => unexpected n
  match l.token with
  | .symbol "/" => take l; return .slash
  | .symbol "**" => take l; starred .keywords
  | .symbol "*" =>
    take l
    let n ← look .bracket false
    match n.token with
    | .word _ => starred .rest
    | _ => return .star
  | .symbol "(" =>
    let (e, source) ← withSource .bracket (g.primary .bracket .bracket)
    if !e.isTarget then unexpected l
    if ← trySymbol .bracket "=" then
      let (default, text) ← withSource .inner (g.expression true .inner .bracket)
      return .defaulted source false default text
    else return .tuple
  | _ => g.parameterTail (← name .bracket)

/-- The parameters of a function in their parentheses. -/
def parameters : Reader (List Parameter) := do
  expectSymbol .inner "("
  if ← trySymbol .bracket ")" then return []
  loop (fun acc => do
    let acc := (← g.parameter) :: acc
    let l ← look .bracket false
    match l.token with
    | .symbol ")" =>
      take l
      return .inr acc.reverse
    | .symbol "," =>
      take l
      if ← trySymbol .bracket ")" then return .inr acc.reverse
      return .inl acc
    | _ => unexpected l) []

/-- A function after the word `def`. -/
def functionTail (isAsync : Bool) : Reader Statement := do
  let name ← name .inner
  g.optionalTypeParameters
  let parameters ← g.parameters
  if ← trySymbol .inner "->" then
    let _ ← g.expression true .inner .inner
  return .function isAsync name parameters (← g.suite)

def classTail : Reader Unit := do
  let _ ← name .inner
  g.optionalTypeParameters
  if ← trySymbol .inner "(" then g.arguments
  g.block

/-! ### Matching -/

/-- A `case` clause of a block. -/
def caseClause : Reader (List Unit) := do
  expectWord .statement "case"
  CasePattern.readAll g
  if ← tryWord .inner "if" then
    let _ ← g.expression true .inner .inner
  g.block
  return []

/-- A `match` statement after its word. -/
def matchTail : Reader Unit := do
  let _ ← g.expressions .inner .inner
  expectSymbol .inner ":"
  let l ← look .suite false
  match l.stop with
  | .indent width =>
    pushIndent width
    let _ ← blockTail g.caseClause
  | .newline => return ()
  | _ => unexpected l

/-! ### All statements -/

/-- What follows decorators: a function or a class. -/
def decorated : Reader Statement := do
  let l ← look .inner false
  match l.token with
  | .word "def" => take l; g.functionTail false
  | .word "class" => take l; g.classTail; return .other
  | .word "async" =>
    take l
    expectWord .inner "def"
    g.functionTail true
  | _ => unexpected l

/-- Decorators, each on a line of its own, and what they decorate. The first one is next. -/
def decorators : Reader Statement := do
  loop (fun (_ : Unit) => do
    if ← trySymbol .inner "@" then
      let _ ← g.expression true .inner .line
      let l ← look .line false
      if l.stop ≠ .newline then unexpected l
      return .inl ()
    else return .inr ()) ()
  g.decorated

/-- The next compound statement, or the simple statements of the next line. -/
def readStatement : Reader (List Statement) := do
  let l ← look .statement true
  let after (tail : Reader Unit) : Reader (List Statement) := do
    take l
    tail
    return [.other]
  match l.token with
  | .word "if" => after g.ifTail
  | .word "while" => after g.whileTail
  | .word "for" => after g.forTail
  | .word "try" => after g.tryTail
  | .word "with" => after g.withTail
  | .word "class" => after g.classTail
  | .word "def" => do
    take l
    return [← g.functionTail false]
  | .symbol "@" => do
    moveTo l.start
    return [← g.decorators]
  | .word "async" => do
    let before := (← get).cursor
    take l
    let n ← look .line false
    match n.token with
    | .word "def" =>
      take n
      return [← g.functionTail true]
    | .word "for" => take n; g.forTail; return [.other]
    | .word "with" => take n; g.withTail; return [.other]
    | _ =>
      moveTo before
      g.simpleLine
  | .word "match" =>
    either g.simpleLine (after g.matchTail)
  | _ => g.simpleLine

end Grammar

/-! ### The whole grammar -/

/-- The readers of constructs that are nested no deeper than a number. -/
def grammar : Nat → Grammar
  | 0 =>
    let tooDeep {α : Type} : Reader α := do failAt (← get).cursor.place
    ⟨fun _ _ _ => tooDeep, fun _ _ => tooDeep, tooDeep⟩
  | depth + 1 =>
    ⟨fun conditional lead follow => (grammar depth).readExpression conditional lead follow,
      fun lead follow => (grammar depth).readPrimary lead follow,
      fun s => (grammar depth).readStatement s⟩

end HouseRules.Python
