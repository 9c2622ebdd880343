import HouseRules.Python.Cursor

/-! What stands between two tokens, and what the line ends and the indentation there mean. -/

namespace HouseRules.Python

/-- What may come next, as far as it decides on the meaning of line ends. -/
inductive Gap where
  /-- Inside brackets, where they may be closed: line ends mean nothing. -/
  | bracket
  /-- Inside a construct that is not complete: line ends mean nothing, but the next line must
  not stand to the left of the block. -/
  | inner
  /-- Where a simple statement may end with the line. -/
  | line
  /-- Before a statement: a line to the left of the block ends it. -/
  | statement
  /-- After the colon that opens a block: the next line may be indented. -/
  | suite
  deriving DecidableEq

/-- Where the way to the next token ends. -/
inductive Stop where
  | token
  | newline
  | indent (width : Nat)
  | dedent
  deriving DecidableEq

/-! ### Line ends and indentation -/

/-- What a scan over line ends, blanks and comment lines has found: whether a line ended, the
indentation of the last line, and that of the first comment line. -/
structure Margin where
  cursor : Cursor
  lineEnded : Bool
  indent : Nat
  comment : Option Nat

namespace Margin

/-- The margin one character further on. -/
def step (m : Margin) (lineEnded : Bool) (indent : Nat) : Margin :=
  { m with cursor := m.cursor.next, lineEnded := lineEnded, indent := indent }

/-- The position after a backslash and the line end behind it, or behind a backslash that ends
the text. -/
def continuation? (c : Cursor) : Option Cursor :=
  match c.rest with
  | ['\\'] => some (c.advance 1)
  | ['\\', '\r'] => some (c.advance 2)
  | '\\' :: '\n' :: _ => some (c.advance 2)
  | '\\' :: '\r' :: '\n' :: _ => some (c.advance 3)
  | _ => none

/-- Scans on. Comment lines are skipped if asked for, but a comment on the line of the last
token, like a stray backslash, ends the scan without a result. A carriage return or a form feed
starts the indentation anew. -/
def scanOn (comments : Bool) : Nat → Margin → Option Margin
  | 0, m => some m
  | fuel + 1, m =>
    match m.cursor.rest with
    | [] => some { m with lineEnded := true, indent := 0 }
    | '\n' :: _ => scanOn comments fuel (m.step true 0)
    | ' ' :: _ => scanOn comments fuel (m.step m.lineEnded (m.indent + 1))
    | '\t' :: _ => scanOn comments fuel (m.step m.lineEnded (m.indent + 8))
    | '\r' :: _ => scanOn comments fuel (m.step m.lineEnded 0)
    | '\x0c' :: _ => scanOn comments fuel (m.step m.lineEnded 0)
    | '#' :: _ =>
      if !comments then some m
      else if !m.lineEnded then none
      else
        let c := (m.cursor.skipWhile (· ≠ '\n')).next
        scanOn comments fuel
          { m with cursor := c, indent := 0, comment := some (m.comment.getD m.indent) }
    | '\\' :: _ =>
      match continuation? m.cursor with
      | some c => scanOn comments fuel { m with cursor := c }
      | none => none
    | _ => some m

/-- The margin before the next token. -/
def scan (comments : Bool) (c : Cursor) : Option Margin :=
  scanOn comments (c.left + 1) ⟨c, false, 0, none⟩

end Margin

/-! ### The way to the next token -/

/-- Blanks that separate tokens. -/
def isTrivia (c : Char) : Bool :=
  let n := c.toNat
  (9 ≤ n && n ≤ 13) || n == 0x20 || n == 0x85 || n == 0xA0 || n == 0x1680 ||
    (0x2000 ≤ n && n ≤ 0x200B) || n == 0x2028 || n == 0x2029 || n == 0x202F || n == 0x205F ||
    n == 0x2060 || n == 0x3000 || n == 0xFEFF

/-- Letters that may stand before the quote of a string. -/
def isStringLetter (c : Char) : Bool := c ∈ "fFrRbBuUtT".toList

def isStringQuote (c : Char) : Bool := c = '"' || c = '\'' || c = '`'

/-- The letters before the quote that opens a string, and the quote. -/
def stringStart? (s : List Char) : Option (List Char × Char) :=
  match s.dropWhile isStringLetter with
  | q :: _ => if isStringQuote q then some (s.takeWhile isStringLetter, q) else none
  | [] => none

/-- Where the way to the next token ends, and whether a backslash continued the line there. -/
structure Arrival where
  stop : Stop
  cursor : Cursor
  spliced : Bool

/-- The layout around a token: the indentations of the open blocks, innermost first, and
whether a string with replacement fields was opened last. -/
structure Frame where
  indents : List Nat
  inFormat : Bool

def Frame.current (f : Frame) : Nat := f.indents.headD 0

/-- What a line end before the margin means, if anything. -/
def Frame.stopAt? (f : Frame) (gap : Gap) (strings : Bool) (m : Margin) : Option Stop :=
  let quoteNext := match m.cursor.rest with
    | q :: _ => isStringQuote q
    | [] => false
  let mayLeave := match gap with
    | .statement => true
    | .inner => !(strings && quoteNext)
    | _ => false
  let commentLeft := match m.comment with
    | some width => decide (width < f.current)
    | none => true
  if !m.lineEnded then none
  else if gap = .suite && f.current < m.indent then some (.indent m.indent)
  else if mayLeave && m.indent < f.current && !f.inFormat && commentLeft then some .dedent
  else if gap = .line || gap = .suite then some .newline
  else none

/-- The way to the next token, where a string is expected or not. -/
def Frame.arriveOn (f : Frame) (gap : Gap) (strings : Bool) : Nat → Bool → Cursor → Arrival
  | 0, spliced, c => ⟨.token, c, spliced⟩
  | fuel + 1, spliced, c =>
    let comments := gap = .line || gap = .statement || gap = .suite
    let margin := Margin.scan comments c
    match margin.bind (f.stopAt? gap strings) with
    | some stop => ⟨stop, c, spliced⟩
    | none =>
      let direct := margin.filter fun m =>
        strings && m.comment.isNone && (stringStart? m.cursor.rest).isSome
      match direct with
      | some m => ⟨.token, m.cursor, spliced⟩
      | none =>
        let c := c.skipWhile isTrivia
        match c.rest with
        | '#' :: _ => f.arriveOn gap strings fuel spliced (c.skipWhile (· ≠ '\n'))
        | '\\' :: _ =>
          match Margin.continuation? c with
          | some c => f.arriveOn gap strings fuel true c
          | none => ⟨.token, c, spliced⟩
        | _ => ⟨.token, c, spliced⟩

/-- The way from a position to the next token. -/
def Frame.arrive (f : Frame) (gap : Gap) (strings : Bool) (c : Cursor) : Arrival :=
  f.arriveOn gap strings (c.left + 1) false c

end HouseRules.Python
