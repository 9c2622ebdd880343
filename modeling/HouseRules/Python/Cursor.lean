import HouseRules.Discovery.Error

/-! Positions in a source text. -/

namespace HouseRules.Python

/-- The text that is still ahead, the place where it starts, and how many characters it has. -/
structure Cursor where
  rest : List Char
  place : Place
  left : Nat

namespace Cursor

/-- The start of a text. A byte order mark there belongs to no token. -/
def start (source : List Char) : Cursor :=
  match source with
  | '\uFEFF' :: rest => ⟨rest, ⟨0, 3⟩, rest.length⟩
  | rest => ⟨rest, ⟨0, 0⟩, rest.length⟩

/-- The position after one character. -/
def next (c : Cursor) : Cursor :=
  match c.rest with
  | [] => c
  | x :: rest =>
    let place : Place :=
      if x = '\n' then ⟨c.place.line + 1, 0⟩ else ⟨c.place.line, c.place.column + x.utf8Size⟩
    ⟨rest, place, c.left - 1⟩

/-- The position after a number of characters. -/
def advance : Nat → Cursor → Cursor
  | 0, c => c
  | n + 1, c => advance n c.next

/-- The position after the leading characters with a property. -/
def skipWhile (p : Char → Bool) (c : Cursor) : Cursor := c.advance (c.rest.takeWhile p).length

/-- The text between two positions. -/
def textTo (c stop : Cursor) : List Char := c.rest.take (c.left - stop.left)

end Cursor

end HouseRules.Python
