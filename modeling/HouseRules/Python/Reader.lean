import HouseRules.Python.Syntax
import HouseRules.Python.Token

/-! Reading a source text token by token. A reader fails at a place; of two ways that fail, the
place further on is told. -/

namespace HouseRules.Python

/-- Where a reader stands: the position, the open blocks, and the first statement so far that
the language no longer has. -/
structure ReaderState where
  cursor : Cursor
  indents : List Nat
  inFormat : Bool
  legacy : Option Place

/-- A step of reading: it moves on, or fails at a place. -/
abbrev Reader (α : Type) := StateT ReaderState (Except Place) α

/-- The next token, how the way to it ends, where it starts, and whether a backslash continued
the line before it. -/
structure Look where
  stop : Stop
  token : Token
  start : Cursor
  spliced : Bool

namespace Reader

def failAt {α : Type} (p : Place) : Reader α := throw p

/-- The next token, where a string is expected or not; the position stays. -/
def look (gap : Gap) (strings : Bool) : Reader Look := do
  let s ← get
  let a := Frame.arrive ⟨s.indents, s.inFormat⟩ gap strings s.cursor
  let token := match a.stop with
    | .token => tokenAt strings a.cursor.rest
    | _ => .nothing
  return ⟨a.stop, token, a.cursor, a.spliced⟩

def moveTo (c : Cursor) : Reader Unit := modify fun s => { s with cursor := c }

/-- Moves behind the token that was looked at. -/
def take (l : Look) : Reader Unit := moveTo (l.start.advance l.token.length)

/-- Fails at the token that was looked at. -/
def unexpected {α : Type} (l : Look) : Reader α := failAt l.start.place

/-- Takes a symbol if it is next. -/
def trySymbol (gap : Gap) (x : String) : Reader Bool := do
  let l ← look gap false
  if l.token = .symbol x then
    take l
    return true
  else return false

/-- Takes a word if it is next. -/
def tryWord (gap : Gap) (w : String) : Reader Bool := do
  let l ← look gap false
  if l.token = .word w then
    take l
    return true
  else return false

def expectSymbol (gap : Gap) (x : String) : Reader Unit := do
  let l ← look gap false
  if l.token = .symbol x then take l else unexpected l

def expectWord (gap : Gap) (w : String) : Reader Unit := do
  let l ← look gap false
  if l.token = .word w then take l else unexpected l

/-- Takes a name. -/
def name (gap : Gap) : Reader String := do
  let l ← look gap false
  match l.token with
  | .word w => if isName w then do take l; return w else unexpected l
  | _ => unexpected l

/-- The further one of two places. -/
def further (p q : Place) : Place :=
  if p.line < q.line || (p.line = q.line && p.column < q.column) then q else p

/-- The first reader, or from the same position the second when the first fails. -/
def either {α : Type} (first second : Reader α) : Reader α := fun s =>
  match first s with
  | .ok r => .ok r
  | .error p =>
    match second s with
    | .ok r => .ok r
    | .error q => .error (further p q)

/-- Repeats a step until it ends the repetition with a result. The number bounds the
repetition. -/
def iterate {α β : Type} : Nat → (α → Reader (α ⊕ β)) → α → Reader β
  | 0, _, _ => do failAt (← get).cursor.place
  | fuel + 1, step, a => do
    match ← step a with
    | .inl a => iterate fuel step a
    | .inr b => return b

/-- Repeats a step that takes a token each time. -/
def loop {α β : Type} (step : α → Reader (α ⊕ β)) (a : α) : Reader β := do
  iterate ((← get).cursor.left + 2) step a

/-- Opens a block of a width. -/
def pushIndent (width : Nat) : Reader Unit :=
  modify fun s => { s with indents := width :: s.indents }

/-- Closes the innermost block. -/
def popIndent : Reader Unit := modify fun s => { s with indents := s.indents.drop 1 }

/-- Notes a statement that the language no longer has. -/
def noteLegacy (p : Place) : Reader Unit := modify fun s =>
  { s with legacy := match s.legacy with
    | none => some p
    | some q => some q }

end Reader

/-- The readers that constructs use for the expressions and blocks inside them. -/
structure Grammar where
  /-- An expression after one gap, followed by tokens after another. The flag allows a
  condition at its end. -/
  expression : Bool → Gap → Gap → Reader Expr
  /-- An operand with its calls, attributes and subscripts. -/
  primary : Gap → Gap → Reader Expr
  /-- The statements of the next line or compound statement. -/
  statement : Reader (List Statement)

end HouseRules.Python
