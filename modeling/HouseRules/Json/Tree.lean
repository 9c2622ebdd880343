import HouseRules.Text.Digits

/-! JSON texts as syntax: numbers and strings keep their spelling, and an object keeps all its
members in order, also two of one name. -/

namespace HouseRules.Json

/-- A JSON text as it is spelled. A string holds what stands between its quotes. -/
inductive Tree where
  | null
  | bool (b : Bool)
  | number (text : List Char)
  | string (text : List Char)
  | array (items : List Tree)
  | object (members : List (List Char × Tree))
  deriving Inhabited

/-! ### Tokens -/

def isSpace (c : Char) : Bool := c = ' ' || c = '\t' || c = '\n' || c = '\r'

def skipSpace (s : List Char) : List Char := s.dropWhile isSpace

def isHex (c : Char) : Bool := Text.isDigitIn 16 c

/-- What stands before the closing quote of a string, and the rest after it. A backslash needs
one of the known letters after it, `u` needs four hexadecimal digits, and control characters are
refused. -/
def scanString : List Char → Option (List Char × List Char)
  | [] => none
  | '"' :: s => some ([], s)
  | '\\' :: 'u' :: a :: b :: c :: d :: s =>
    if isHex a && isHex b && isHex c && isHex d then
      (scanString s).map fun (t, r) => ('\\' :: 'u' :: a :: b :: c :: d :: t, r)
    else none
  | '\\' :: c :: s =>
    if c ∈ ['"', '\\', '/', 'b', 'f', 'n', 'r', 't'] then
      (scanString s).map fun (t, r) => ('\\' :: c :: t, r)
    else none
  | c :: s =>
    if c < ' ' ∨ c = '\\' then none else (scanString s).map fun (t, r) => (c :: t, r)

/-- One or more digits, and the rest. -/
def scanDigits (s : List Char) : Option (List Char × List Char) :=
  let digits := s.takeWhile Char.isDigit
  if digits.isEmpty then none else some (digits, s.dropWhile Char.isDigit)

/-- The point and the digits of a fraction, if there is a point. -/
def scanFraction : List Char → Option (List Char × List Char)
  | '.' :: s => (scanDigits s).map fun (d, r) => ('.' :: d, r)
  | s => some ([], s)

/-- The letter, the sign and the digits of an exponent, if there is a letter. -/
def scanExponent : List Char → Option (List Char × List Char)
  | c :: s =>
    if c = 'e' ∨ c = 'E' then
      match s with
      | '+' :: s => (scanDigits s).map fun (d, r) => (c :: '+' :: d, r)
      | '-' :: s => (scanDigits s).map fun (d, r) => (c :: '-' :: d, r)
      | s => (scanDigits s).map fun (d, r) => (c :: d, r)
    else some ([], c :: s)
  | [] => some ([], [])

/-- The digits before the point: a zero on its own or digits that start with another one. -/
def scanWhole (s : List Char) : Option (List Char × List Char) :=
  match s with
  | '0' :: s => some (['0'], s)
  | s => scanDigits s

/-- A number and the rest. -/
def scanNumber (s : List Char) : Option (List Char × List Char) := do
  let (sign, s) := match s with
    | '-' :: s => (['-'], s)
    | s => ([], s)
  let (whole, s) ← scanWhole s
  let (fraction, s) ← scanFraction s
  let (exponent, s) ← scanExponent s
  return (sign ++ whole ++ fraction ++ exponent, s)

/-- The rest after a fixed word. -/
def scanWord : List Char → List Char → Option (List Char)
  | [], s => some s
  | w :: ws, c :: s => if w = c then scanWord ws s else none
  | _ :: _, [] => none

/-! ### Reading -/

mutual

/-- A value at the start of a text, and the rest. The number bounds how many values, items and
members are read; the length of the text is always enough. -/
def readValue : Nat → List Char → Option (Tree × List Char)
  | 0, _ => none
  | fuel + 1, s =>
    match skipSpace s with
    | '"' :: s => (scanString s).map fun (t, r) => (.string t, r)
    | '[' :: s =>
      match skipSpace s with
      | ']' :: r => some (.array [], r)
      | s => (readItems fuel s).map fun (items, r) => (.array items, r)
    | '\x7b' :: s =>
      match skipSpace s with
      | '\x7d' :: r => some (.object [], r)
      | s => (readMembers fuel s).map fun (members, r) => (.object members, r)
    | 'n' :: s => (scanWord "ull".toList s).map fun r => (.null, r)
    | 't' :: s => (scanWord "rue".toList s).map fun r => (.bool true, r)
    | 'f' :: s => (scanWord "alse".toList s).map fun r => (.bool false, r)
    | s => (scanNumber s).map fun (t, r) => (.number t, r)

/-- Items up to the closing bracket. -/
def readItems : Nat → List Char → Option (List Tree × List Char)
  | 0, _ => none
  | fuel + 1, s => do
    let (item, s) ← readValue fuel s
    match skipSpace s with
    | ',' :: s => (readItems fuel s).map fun (items, r) => (item :: items, r)
    | ']' :: r => return ([item], r)
    | _ => none

/-- Members up to the closing brace. -/
def readMembers : Nat → List Char → Option (List (List Char × Tree) × List Char)
  | 0, _ => none
  | fuel + 1, s =>
    match skipSpace s with
    | '"' :: s => do
      let (name, s) ← scanString s
      match skipSpace s with
      | ':' :: s =>
        let (value, s) ← readValue fuel s
        match skipSpace s with
        | ',' :: s => (readMembers fuel s).map fun (ms, r) => ((name, value) :: ms, r)
        | '\x7d' :: r => return ([(name, value)], r)
        | _ => none
      | _ => none
    | _ => none

end

/-- The syntax of a whole JSON text. -/
def Tree.read? (s : List Char) : Option Tree :=
  match readValue (s.length + 1) s with
  | some (t, r) => if (skipSpace r).isEmpty then some t else none
  | none => none

/-! ### Depth -/

mutual

/-- How many arrays and objects stand around the innermost value. -/
def Tree.depth : Tree → Nat
  | .array items => depthItems items + 1
  | .object members => depthMembers members + 1
  | _ => 0

def depthItems : List Tree → Nat
  | [] => 0
  | t :: ts => max t.depth (depthItems ts)

def depthMembers : List (List Char × Tree) → Nat
  | [] => 0
  | (_, t) :: ms => max t.depth (depthMembers ms)

end

end HouseRules.Json
