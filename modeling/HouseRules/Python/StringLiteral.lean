import HouseRules.Text.Digits
import HouseRules.Text.Pieces

/-! The text that a plain string literal denotes: its prefix and delimiters are taken off and,
unless it is raw, its escapes are decoded. -/

namespace HouseRules.Python

/-! ### Escapes -/

/-- The character of a one-letter escape. -/
def simpleEscape? (c : Char) : Option Char :=
  match c with
  | '\\' => some '\\'
  | '\'' => some '\''
  | '"' => some '"'
  | 'a' => some '\x07'
  | 'b' => some '\x08'
  | 'f' => some '\x0c'
  | 'n' => some '\n'
  | 'r' => some '\r'
  | 't' => some '\t'
  | 'v' => some '\x0b'
  | _ => none

/-- The first digits of the base in a text, at most `width` of them. -/
def leadingDigits (base width : Nat) (s : List Char) : List Char :=
  (s.take width).takeWhile (Text.isDigitIn base)

/-- An escape of exactly `width` hexadecimal digits after its letter: what it denotes and how
many characters it takes, the letter included. One that denotes no character stands for
itself. -/
def hexEscape (letter : Char) (width : Nat) (s : List Char) : List Char × Nat :=
  let digits := leadingDigits 16 width s
  let decoded := if digits.length = width then (Text.number? 16 digits).bind Text.scalar? else none
  match decoded with
  | some c => ([c], digits.length + 1)
  | none => ('\\' :: letter :: digits, digits.length + 1)

/-- An escape of up to three octal digits. -/
def octalEscape (s : List Char) : List Char × Nat :=
  let digits := leadingDigits 8 3 s
  (((Text.number? 8 digits).bind Text.scalar?).toList, digits.length)

/-- What the text after a backslash contributes, and how many of its characters are used up.
A line end after the backslash contributes nothing. -/
def escape : List Char → List Char × Nat
  | [] => (['\\'], 0)
  | '\n' :: _ => ([], 1)
  | '\r' :: '\n' :: _ => ([], 2)
  | '\r' :: _ => ([], 1)
  | c :: s =>
    match simpleEscape? c with
    | some x => ([x], 1)
    | none =>
      if Text.isDigitIn 8 c then octalEscape (c :: s)
      else if c = 'x' then hexEscape c 2 s
      else if c = 'u' then hexEscape c 4 s
      else if c = 'U' then hexEscape c 8 s
      else (['\\', c], 1)

/-- The text with its escapes decoded, after the characters that an escape has used up. -/
def unescapeFrom : Nat → List Char → List Char
  | _, [] => []
  | used + 1, _ :: s => unescapeFrom used s
  | 0, c :: s =>
    if c = '\\' then (escape s).1 ++ unescapeFrom (escape s).2 s
    else c :: unescapeFrom 0 s

/-- The text with its escapes decoded. -/
def unescape (body : List Char) : List Char := unescapeFrom 0 body

/-! ### Literals -/

def isQuote (c : Char) : Bool := c = '\'' || c = '"'

/-- The delimiter of a quoted text: three quotes when there is room for two of those. -/
def delimiter (quoted : List Char) : List Char :=
  match quoted with
  | q :: _ =>
    if 6 ≤ (String.ofList quoted).utf8ByteSize ∧ quoted.take 3 = [q, q, q] then [q, q, q] else [q]
  | [] => []

/-- What stands between the delimiters of a quoted text. -/
def body? (quoted : List Char) : Option (List Char) :=
  (Text.afterStart? (delimiter quoted) quoted).bind (Text.beforeEnd? (delimiter quoted))

/-- The text that a string literal denotes. Literals of bytes and with replacement fields
denote none. -/
def decodeLiteral? (text : List Char) : Option (List Char) :=
  let start := (text.takeWhile (!isQuote ·)).map Char.toLower
  let quoted := text.dropWhile (!isQuote ·)
  if quoted.isEmpty || !start.all (fun c => c = 'r' || c = 'u') then none
  else if start.contains 'r' then body? quoted
  else (body? quoted).map unescape

end HouseRules.Python
