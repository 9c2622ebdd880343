import HouseRules.Python.Reader

/-! Reading what stands inside quotes and brackets: strings, displays, comprehensions, arguments
and subscripts. The readers for the expressions inside come from a grammar. Each reader is given
the gap before its first token or the gap that follows it, where these differ. -/

namespace HouseRules.Python

open Reader

namespace Grammar

variable (g : Grammar)

/-! ### Strings -/

/-- What the letters before a quote say about a string, and how it is closed. -/
structure StringKind where
  isRaw : Bool
  isBytes : Bool
  isFormat : Bool
  quote : Char
  isTriple : Bool

namespace StringKind

/-- The kind of a string that letters and a quote open, before the rest of the text. -/
def of (letters : List Char) (quote : Char) (rest : List Char) : StringKind :=
  let has (xs : List Char) := letters.any xs.contains
  ⟨has ['r', 'R'], has ['b', 'B'], has ['f', 'F', 't', 'T'], quote,
    quote ≠ '`' && rest.take 3 = [quote, quote, quote]⟩

end StringKind

def isHexDigit (c : Char) : Bool := Text.isDigitIn 16 c

/-- How many characters an escape at a backslash takes; the backslash alone if it starts
none. -/
def escapeLength (s : List Char) : Nat :=
  let digits (n : Nat) (r : List Char) : Nat :=
    if n ≤ (r.takeWhile isHexDigit).length then n + 2 else 1
  match s with
  | '\\' :: 'u' :: r => digits 4 r
  | '\\' :: 'U' :: r => digits 8 r
  | '\\' :: 'x' :: r => digits 2 r
  | '\\' :: 'N' :: '\x7b' :: r =>
    let inner := r.takeWhile (· ≠ '\x7d')
    if inner.isEmpty || inner.length = r.length then 1 else inner.length + 4
  | '\\' :: '\r' :: '\n' :: _ => 3
  | '\\' :: c :: r =>
    if c = '\n' || "'\"abfrntv\\".toList.contains c then 2
    else if c.isDigit then ((c :: r).take 3 |>.takeWhile Char.isDigit).length + 1
    else 1
  | _ => 1

/-- How many characters a backslash takes in a raw string: a quote, a backslash and a line end
behind it come with it. -/
def rawEscapeLength (quote : Char) (s : List Char) : Nat :=
  let r := s.drop 1
  let n := match r with
    | c :: _ => if c = quote || c = '\\' then 1 else 0
    | [] => 0
  match r.drop n with
  | '\r' :: '\n' :: _ => n + 3
  | '\r' :: _ => n + 2
  | '\n' :: _ => n + 2
  | _ => n + 1

/-- Expressions between commas; a comma after the last is allowed. -/
def expressions (lead follow : Gap) : Reader (List Expr) := do
  let first ← g.expression true lead follow
  loop (fun acc => do
    let comma ← look follow false
    if comma.token ≠ .symbol "," then return .inr acc.reverse
    take comma
    let l ← look follow true
    if l.token.startsExpression then
      return .inl ((← g.expression true follow follow) :: acc)
    else return .inr acc.reverse) [first]

/-- What follows the word `yield`. -/
def yieldTail (follow : Gap) : Reader Expr := do
  if ← tryWord follow "from" then
    let _ ← g.expression true .inner follow
    return .other
  let l ← look follow true
  if l.token.startsExpression then
    let _ ← g.expressions follow follow
  return .other

/-- The inside of a replacement field, after its opening brace, up to a mark that may follow
the expression. -/
def fieldStart : Reader Unit := do
  let l ← look .inner true
  if l.token = .word "yield" then
    take l
    let _ ← g.yieldTail .bracket
  else
    let _ ← g.expressions .inner .bracket
  let l ← look .bracket false
  match l.start.rest with
  | '=' :: _ => moveTo (l.start.advance 1)
  | _ => pure ()
  let l ← look .bracket false
  match l.start.rest with
  | '!' :: c :: _ =>
    if 'a' ≤ c ∧ c ≤ 'z' then moveTo (l.start.advance 2) else unexpected l
  | _ => return ()

/-- A replacement field after its opening brace. Fields may stand in its format too; the number
of those that are open says how many braces are still to be closed. -/
def field : Reader Unit :=
  loop (fun (depth, inFormat) => do
    if inFormat then
      let c := (← get).cursor.skipWhile fun x => x ≠ '\x7b' && x ≠ '\x7d'
      match c.rest with
      | '\x7b' :: _ =>
        moveTo c.next
        return .inl (depth + 1, false)
      | '\x7d' :: _ =>
        moveTo c.next
        return if depth = 0 then .inr () else .inl (depth - 1, true)
      | _ => failAt c.place
    else
      g.fieldStart
      let l ← look .bracket false
      match l.start.rest with
      | ':' :: _ =>
        moveTo (l.start.advance 1)
        return .inl (depth, true)
      | '\x7d' :: _ =>
        moveTo (l.start.advance 1)
        return if depth = 0 then .inr () else .inl (depth - 1, true)
      | _ => unexpected l) ((0, false) : Nat × Bool)

/-- The inside of a string up to its closing quotes. The flag says whether characters have been
read since the start or the last escape: only then does a line end break off a string of one
line. -/
def stringBody (k : StringKind) : Reader Unit :=
  loop (fun hasContent => do
    let c := (← get).cursor
    let advance (n : Nat) : Reader Unit := moveTo (c.advance n)
    match c.rest with
    | [] => failAt c.place
    | x :: r =>
      if k.isFormat && (x = '\x7b' || x = '\x7d') then
        if r.head? = some x then
          advance 2
          return .inl false
        else if x = '\x7b' then
          advance 1
          g.field
          return .inl false
        else failAt c.place
      else if x = '\\' then
        if k.isRaw then
          advance (rawEscapeLength k.quote c.rest)
          return .inl hasContent
        else if k.isBytes && (r.headD ' ') ∈ ['N', 'u', 'U'] then
          advance 3
          return .inl true
        else
          advance (escapeLength c.rest)
          return .inl false
      else if x = k.quote then
        if !k.isTriple then
          advance 1
          return .inr ()
        else if r.take 2 = [x, x] then
          advance 3
          return .inr ()
        else
          advance (c.rest.takeWhile (· = x)).length
          return .inl false
      else if x = '\n' && hasContent && !k.isTriple then failAt c.place
      else
        advance 1
        return .inl true) false

/-- The text of one string token whose opening was looked at. -/
def stringToken (l : Look) : Reader (List Char) := do
  match stringStart? l.start.rest with
  | none => unexpected l
  | some (letters, quote) =>
    let opening := l.start.advance letters.length
    let k := StringKind.of letters quote opening.rest
    moveTo (opening.advance (if k.isTriple then 3 else 1))
    modify fun s => { s with inFormat := k.isFormat }
    g.stringBody k
    modify fun s => { s with inFormat := false }
    return l.start.textTo (← get).cursor

/-- String tokens next to each other. -/
def strings (l : Look) (follow : Gap) : Reader Expr := do
  let first ← g.stringToken l
  loop (fun acc => do
    let l ← look follow true
    if l.token = .string then return .inl ((← g.stringToken l) :: acc)
    else return .inr (.string acc.reverse)) [first]

/-! ### Targets and parameters -/

/-- Marks brackets in which a backslash continued a line. -/
def spliceIf (spliced : Bool) (e : Expr) : Expr := if spliced then .spliced e else e

/-- The source text of what a reader reads after a gap, and its result. -/
def withSource {α : Type} (gap : Gap) (read : Reader α) : Reader (α × String) := do
  let l ← look gap true
  let a ← read
  return (a, String.ofList (l.start.textTo (← get).cursor))

/-- The parameters of a `lambda` expression, up to its colon. -/
def lambdaParameters : Reader Unit := do
  let target : Reader Unit := do
    let l ← look .inner false
    let e ← g.primary .inner .inner
    if e.isTarget then pure () else unexpected l
  let default : Reader Unit := do
    if ← trySymbol .inner "=" then
      let _ ← g.expression true .inner .inner
  loop (fun (_ : Unit) => do
    let l ← look .inner false
    match l.token with
    | .symbol ":" =>
      take l
      return .inr ()
    | .symbol "/" => take l
    | .symbol "**" =>
      take l
      target
    | .symbol "*" =>
      take l
      let n ← look .inner false
      match n.token with
      | .word _ => target
      | _ => pure ()
    | .symbol "(" =>
      target
      default
    | _ =>
      let _ ← name .inner
      default
    let l ← look .inner false
    match l.token with
    | .symbol "," =>
      take l
      return .inl ()
    | .symbol ":" =>
      take l
      return .inr ()
    | _ => unexpected l) ()

/-- The targets of a loop, up to the word `in`. -/
def targets : Reader Unit :=
  loop (fun isFirst => do
    let l ← look .inner false
    if l.token = .word "in" && !isFirst then
      take l
      return .inr ()
    let isStarred ← trySymbol .inner "*"
    match ← g.primary .inner .inner with
    | .place => pure ()
    | e => if isStarred || !e.isTarget then unexpected l
    let l ← look .inner false
    match l.token with
    | .symbol "," =>
      take l
      return .inl false
    | .word "in" =>
      take l
      return .inr ()
    | _ => unexpected l) true

/-! ### Brackets -/

/-- The clauses of a comprehension. -/
def clauses : Reader Unit :=
  loop (fun (_ : Unit) => do
    let l ← look .bracket false
    match l.token with
    | .word "async" =>
      take l
      let l ← look .inner false
      if l.token = .word "for" then return .inl () else unexpected l
    | .word "for" =>
      take l
      g.targets
      let _ ← g.expression false .inner .bracket
      loop (fun (_ : Unit) => do
        let comma ← look .bracket false
        if comma.token ≠ .symbol "," then return .inr ()
        take comma
        let l ← look .bracket true
        if l.token.startsExpression && l.token ≠ .word "async" then
          let _ ← g.expression false .bracket .bracket
          return .inl ()
        else return .inr ()) ()
      return .inl ()
    | .word "if" =>
      take l
      let _ ← g.expression false .inner .bracket
      return .inl ()
    | _ => return .inr ()) ()

/-- Whether a token starts a clause of a comprehension. -/
def startsClause (t : Token) : Bool := t = .word "for" || t = .word "async"

/-- One item of a display or one argument: an expression, one after a star, or `yield`. -/
def item (l : Look) : Reader Expr :=
  match l.token with
  | .symbol "*" => do
    take l
    match ← g.expression true .inner .bracket with
    | .place => return .starredPlace
    | _ => return .other
  | .word "yield" => do
    take l
    g.yieldTail .bracket
  | _ => g.expression true .bracket .bracket

/-- The items after the first of a display, up to the closing bracket. -/
def itemsUpTo (closer : String) (first : Expr) (spliced : Bool) : Reader (List Expr × Bool) :=
  loop (fun (acc, spliced) => do
    let l ← look .bracket false
    let spliced := spliced || l.spliced
    if l.token = .symbol closer then
      take l
      return .inr (acc.reverse, spliced)
    else if l.token = .symbol "," then
      take l
      let l ← look .bracket true
      let spliced := spliced || l.spliced
      if l.token = .symbol closer then
        take l
        return .inr (acc.reverse, spliced)
      let e ← g.item l
      return .inl (e :: acc, spliced)
    else unexpected l) ([first], spliced)

/-- What a bracket holds after its first item: more items, or clauses. -/
def displayTail (kind : Display) (closer : String)
    (first : Expr) (spliced : Bool) : Reader Expr := do
  let l ← look .bracket false
  if startsClause l.token then
    g.clauses
    expectSymbol .bracket closer
    return .other
  else
    let (items, spliced) ← g.itemsUpTo closer first spliced
    return spliceIf spliced (.display kind items)

/-- What stands in parentheses, after the opening one. -/
def parentheses : Reader Expr := do
  let l ← look .bracket true
  if l.token = .symbol ")" then
    take l
    return spliceIf l.spliced (.display .tuple [])
  let first ← g.item l
  let n ← look .bracket false
  if n.token = .symbol ")" then
    if l.token = .symbol "*" then
      match first with
      | .starredPlace => take n; return .parenthesized first
      | _ => unexpected n
    else
      take n
      return spliceIf l.spliced (.parenthesized first)
  else g.displayTail .tuple ")" first l.spliced

/-- What stands in square brackets, after the opening one. -/
def squareBrackets : Reader Expr := do
  let l ← look .bracket true
  if l.token = .symbol "]" then
    take l
    return spliceIf l.spliced (.display .list [])
  let first ← g.item l
  g.displayTail .list "]" first l.spliced

/-- The entries of a dictionary so far, whether all of them are pairs, and whether a backslash
continued a line between them. -/
structure Entries where
  pairs : List (Expr × Expr)
  onlyPairs : Bool
  spliced : Bool

namespace Entries

def toExpr (e : Entries) : Expr :=
  if e.onlyPairs then spliceIf e.spliced (.dict e.pairs.reverse) else .other

end Entries

/-- The entries of a dictionary from a comma or the closing brace on. -/
def entriesTail (entries : Entries) : Reader Expr :=
  loop (fun (e : Entries) => do
    let l ← look .bracket false
    let e := { e with spliced := e.spliced || l.spliced }
    if l.token = .symbol "\x7d" then
      take l
      return .inr e.toExpr
    else if l.token = .symbol "," then
      take l
      let l ← look .bracket true
      let e := { e with spliced := e.spliced || l.spliced }
      if l.token = .symbol "\x7d" then
        take l
        return .inr e.toExpr
      else if l.token = .symbol "**" then
        take l
        let _ ← g.expression true .inner .bracket
        return .inl { e with onlyPairs := false }
      else
        let key ← g.expression true .bracket .inner
        expectSymbol .inner ":"
        let value ← g.expression true .inner .bracket
        return .inl { e with pairs := (key, value) :: e.pairs }
    else unexpected l) entries

/-- What stands in braces, after the opening one. -/
def braces : Reader Expr := do
  let l ← look .bracket true
  match l.token with
  | .symbol "\x7d" =>
    take l
    return spliceIf l.spliced (.dict [])
  | .symbol "," =>
    take l
    let n ← look .bracket false
    expectSymbol .bracket "\x7d"
    return spliceIf (l.spliced || n.spliced) (.dict [])
  | .symbol "**" =>
    take l
    let _ ← g.expression true .inner .bracket
    g.entriesTail ⟨[], false, l.spliced⟩
  | _ =>
    let first ← g.item l
    let n ← look .bracket false
    if n.token = .symbol ":" && l.token ≠ .symbol "*" then
      take n
      let value ← g.expression true .inner .bracket
      let n ← look .bracket false
      if startsClause n.token then
        g.clauses
        expectSymbol .bracket "\x7d"
        return .other
      else g.entriesTail ⟨[(first, value)], true, l.spliced⟩
    else g.displayTail .set "\x7d" first l.spliced

/-! ### Calls and subscripts -/

/-- One argument of a call. -/
def argument (l : Look) : Reader Unit :=
  match l.token with
  | .symbol "*" | .symbol "**" => do
    take l
    let _ ← g.expression true .inner .bracket
  | .word w => do
    let before := (← get).cursor
    take l
    let isKeyword ← if isName w then trySymbol .bracket "=" else pure false
    if isKeyword then
      let _ ← g.expression true .inner .bracket
    else
      moveTo before
      let _ ← g.expression true .bracket .bracket
  | _ => do
    let _ ← g.expression true .bracket .bracket

/-- The arguments of a call, after the opening parenthesis. -/
def arguments : Reader Unit := do
  let l ← look .bracket true
  match l.token with
  | .symbol ")" => take l
  | .symbol "," =>
    take l
    expectSymbol .bracket ")"
  | _ =>
    g.argument l
    let n ← look .bracket false
    if startsClause n.token then
      g.clauses
      expectSymbol .bracket ")"
    else
      loop (fun (_ : Unit) => do
        let l ← look .bracket false
        if l.token = .symbol ")" then
          take l
          return .inr ()
        else if l.token = .symbol "," then
          take l
          let l ← look .bracket true
          if l.token = .symbol ")" then
            take l
            return .inr ()
          g.argument l
          return .inl ()
        else unexpected l) ()

/-- An expression where one may stand in a slice. -/
def sliceBound : Reader Unit := do
  let l ← look .bracket true
  if l.token.startsExpression then
    let _ ← g.expression true .bracket .bracket

/-- The index of a subscript or a slice. -/
def index : Reader Unit := do
  let l ← look .bracket true
  if l.token = .symbol ":" then return ()
  let _ ← g.expression true .bracket .bracket

/-- The indices of a subscript, after the opening bracket. -/
def subscript : Reader Unit :=
  loop (fun (_ : Unit) => do
    g.index
    if ← trySymbol .bracket ":" then
      g.sliceBound
      if ← trySymbol .bracket ":" then g.sliceBound
    let l ← look .bracket false
    match l.token with
    | .symbol "]" =>
      take l
      return .inr ()
    | .symbol "," =>
      take l
      let l ← look .bracket false
      if l.token = .symbol "]" then
        take l
        return .inr ()
      else return .inl ()
    | _ => unexpected l) ()

end Grammar

end HouseRules.Python
