import HouseRules.Python.Expression

/-! Reading the patterns of `case` clauses. -/

namespace HouseRules.Python

open Reader

/-- The reader of the patterns inside a pattern: after one gap, followed by tokens after
another. -/
abbrev PatternReader := Gap → Gap → Reader Unit

namespace CasePattern

variable (g : Grammar) (inside : PatternReader)

/-- Patterns up to a closing symbol, which may follow a comma. -/
def upTo (closer : String) (entry : Reader Unit) : Reader Unit :=
  loop (fun isFirst => do
    let l ← look .bracket true
    if l.token = .symbol closer then
      take l
      return .inr ()
    if !isFirst then
      if l.token ≠ .symbol "," then unexpected l
      take l
      let n ← look .bracket true
      if n.token = .symbol closer then
        take n
        return .inr ()
    entry
    return .inl false) true

/-- A number after a sign or not, and perhaps an imaginary part. -/
def number (lead follow : Gap) : Reader Unit := do
  let _ ← trySymbol lead "-"
  let numeral (gap : Gap) : Reader Unit := do
    let l ← look gap false
    match l.token with
    | .integer _ | .float _ => take l
    | _ => unexpected l
  numeral .inner
  let l ← look follow false
  if l.token = .symbol "+" || l.token = .symbol "-" then
    take l
    numeral .inner

/-- A name with attributes, and the patterns of the class it names. -/
def named (lead follow : Gap) : Reader Unit := do
  let _ ← name lead
  loop (fun (_ : Unit) => do
    if ← trySymbol follow "." then
      let _ ← name .inner
      return .inl ()
    else return .inr ()) ()
  if ← trySymbol follow "(" then
    let entry : Reader Unit := do
      let before := (← get).cursor
      let l ← look .bracket false
      let isKeyword ← match l.token with
        | .word w => if isName w then do take l; trySymbol .bracket "=" else pure false
        | _ => pure false
      if isKeyword then inside .inner .bracket
      else
        moveTo before
        inside .bracket .bracket
    upTo ")" entry

/-- The entry of a mapping. -/
def mapped : Reader Unit := do
  let l ← look .bracket false
  if l.token = .symbol "**" then
    take l
    let _ ← name .inner
  else
    inside .bracket .inner
    expectSymbol .inner ":"
    inside .inner .bracket

/-- One pattern without alternatives. -/
def single (lead follow : Gap) : Reader Unit := do
  let l ← look lead true
  match l.token with
  | .string => let _ ← g.strings l follow
  | .integer _ | .float _ | .symbol "-" => number lead follow
  | .word "True" | .word "False" | .word "None" => take l
  | .word _ => named inside lead follow
  | .symbol "*" | .symbol "**" =>
    take l
    let _ ← name .inner
  | .symbol "(" =>
    take l
    upTo ")" (inside .bracket .bracket)
  | .symbol "[" =>
    take l
    upTo "]" (inside .bracket .bracket)
  | .symbol "\x7b" =>
    take l
    upTo "\x7d" (mapped inside)
  | _ => unexpected l

/-- A pattern: alternatives, and perhaps a name for what they match. -/
def alternatives (lead follow : Gap) : Reader Unit := do
  single g inside lead follow
  loop (fun (_ : Unit) => do
    let l ← look follow false
    match l.token with
    | .symbol "|" =>
      take l
      single g inside .inner follow
      return .inl ()
    | .word "as" =>
      take l
      let _ ← name .inner
      return .inl ()
    | _ => return .inr ()) ()

/-- A pattern nested no deeper than a number. -/
def read : Nat → PatternReader
  | 0, _, _ => do failAt (← get).cursor.place
  | fuel + 1, lead, follow => alternatives g (read fuel) lead follow

/-- The patterns of a clause, between commas. -/
def readAll : Reader Unit := do
  let fuel := (← get).cursor.left + 2
  read g fuel .inner .inner
  loop (fun (_ : Unit) => do
    if ← trySymbol .inner "," then
      let l ← look .inner true
      if l.token = .symbol ":" || l.token = .word "if" then return .inr ()
      read g fuel .inner .inner
      return .inl ()
    else return .inr ()) ()

end CasePattern

end HouseRules.Python
