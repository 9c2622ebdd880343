import HouseRules.Text.Blank
import HouseRules.Text.Pieces
import HouseRules.Value.Basic

/-! Settings from variables of the environment: the nested key that a name spells, and the value
that a text spells. -/

namespace HouseRules.Assignment

/-! ### Keys -/

def lower (s : List Char) : List Char := s.map Char.toLower

/-- What follows a beginning of a name, letter case aside. -/
def afterPrefix? (start name : List Char) : Option (List Char) :=
  if (lower start).isPrefixOf (lower name) then some (name.drop start.length) else none

/-- Two underscores in a row, from the left, turned into a dot. -/
def dotted : List Char → List Char
  | '_' :: '_' :: s => '.' :: dotted s
  | c :: s => c :: dotted s
  | [] => []

/-- The pieces of the key that a variable sets under a beginning of names. Names with an empty
piece set nothing, and neither does the key `log`. -/
def key? (start name : String) : Option (List String) := do
  let rest ← afterPrefix? start.toList name.toList
  let key := lower (Text.trim (dotted rest))
  let pieces := Text.pieces '.' key
  if key = "log".toList || pieces.any List.isEmpty then none
  else some (pieces.map String.ofList)

/-! ### Values -/

def isSpace (c : Char) : Bool := c = ' ' || c = '\t' || c = '\n' || c = '\r' || c = '\x0c'

def skipSpace (s : List Char) : List Char := s.dropWhile isSpace

/-- The characters that end a word. -/
def isSeparator (c : Char) : Bool :=
  c = ',' || c = '\x7b' || c = '\x7d' || c = '[' || c = ']'

/-- The body of a quoted text after its opening quote, still with its escapes, and the rest after
the closing one. -/
def quotedBody : List Char → Option (List Char × List Char)
  | [] => none
  | '"' :: s => some ([], s)
  | '\\' :: c :: s => (quotedBody s).map fun (t, r) => ('\\' :: c :: t, r)
  | c :: s => (quotedBody s).map fun (t, r) => (c :: t, r)

/-- The character of an escape with some hexadecimal digits, and the rest. -/
def codeEscape (width : Nat) (s : List Char) : Option (Char × List Char) :=
  let digits := s.take width
  if digits.length < width then none
  else do
    let c ← Text.scalar? (← Text.number? 16 digits)
    return (c, s.drop width)

/-- A quoted text with its escapes decoded. The number bounds its length. -/
def unescape : Nat → List Char → Option (List Char)
  | 0, _ => some []
  | fuel + 1, s =>
    match s with
    | [] => some []
    | '\\' :: c :: s =>
      let single (x : Char) : Option (List Char) := (unescape fuel s).map (x :: ·)
      match c with
      | '"' => single '"'
      | '\\' => single '\\'
      | 'b' => single '\x08'
      | 'f' => single '\x0c'
      | 'n' => single '\n'
      | 'r' => single '\r'
      | 't' => single '\t'
      | 'u' => (codeEscape 4 s).bind fun (x, s) => (unescape fuel s).map (x :: ·)
      | 'U' => (codeEscape 8 s).bind fun (x, s) => (unescape fuel s).map (x :: ·)
      | _ => none
    | c :: s => if c = '\\' then none else (unescape fuel s).map (c :: ·)

/-- A quoted text after its opening quote, and the rest. -/
def quoted (s : List Char) : Option (String × List Char) := do
  let (body, rest) ← quotedBody s
  let text ← unescape (body.length + 1) body
  return (String.ofList text, rest)

/-- The integer below `2 ^ 64` that digits after an optional plus sign denote. -/
def unsigned? (s : List Char) : Option Int :=
  let digits := match s with
    | '+' :: digits => digits
    | digits => digits
  (Text.number? 10 digits).bind fun n => if n < 0x10000000000000000 then some (n : Int) else none

/-- The integer of 64 bits with a sign that a text denotes. -/
def signed? (s : List Char) : Option Int :=
  match s with
  | '-' :: digits =>
    (Text.number? 10 digits).bind fun n =>
      if n ≤ 0x8000000000000000 then some (-(n : Int)) else none
  | s => (unsigned? s).filter (· < 0x8000000000000000)

/-- The value of a word: a number where it spells one, else the word itself. A floating point
number has a point. -/
def word (s : List Char) : Value :=
  let asFloat := if s.contains '.' then Binary64.parse? s else none
  match asFloat with
  | some x => .float x
  | none =>
    match unsigned? s with
    | some n => .int n
    | none =>
      match signed? s with
      | some n => .int n
      | none => .string (String.ofList s)

/-- The key of a member, quoted or a plain word, and the rest. -/
def memberKey (s : List Char) : Option (String × List Char) :=
  match s with
  | '"' :: s => quoted s
  | s =>
    let k := s.takeWhile fun c => c.isAlphanum || c = '_' || c = '-'
    if k.isEmpty then none else some (String.ofList k, s.drop k.length)

mutual

/-- A value and the rest. The number bounds how many values are read. -/
def value : Nat → List Char → Option (Value × List Char)
  | 0, _ => none
  | fuel + 1, s =>
    let found : Option (Value × List Char) := match skipSpace s with
      | 't' :: 'r' :: 'u' :: 'e' :: s => some (.bool true, s)
      | 'f' :: 'a' :: 'l' :: 's' :: 'e' :: s => some (.bool false, s)
      | '\x7b' :: s => (members fuel [] s).map fun (fields, s) => (.object fields, s)
      | '[' :: s => (items fuel s).map fun (vs, s) => (.array vs, s)
      | '"' :: s => (quoted s).map fun (t, s) => (.string t, s)
      | '\'' :: c :: '\'' :: s => some (.string (String.singleton c), s)
      | '\'' :: _ => none
      | s =>
        let w := s.takeWhile (!isSeparator ·)
        some (word (Text.trim w), s.drop w.length)
    found.map fun (v, s) => (v, skipSpace s)

/-- The items of an array up to its closing bracket; a comma may stand before that. -/
def items : Nat → List Char → Option (List Value × List Char)
  | 0, _ => none
  | fuel + 1, s =>
    match s with
    | ']' :: s => some ([], s)
    | s => do
      let (v, s) ← value fuel s
      match s with
      | ',' :: s => (items fuel s).map fun (vs, s) => (v :: vs, s)
      | ']' :: s => return ([v], s)
      | _ => none

/-- The members of an object, added to the fields so far, up to its closing brace. -/
def members : Nat → Fields → List Char → Option (Fields × List Char)
  | 0, _, _ => none
  | fuel + 1, fields, s =>
    match s with
    | '\x7d' :: s => some (fields, s)
    | s => do
      let (k, s) ← memberKey (skipSpace s)
      match skipSpace s with
      | '=' :: s =>
        let (v, s) ← value fuel s
        let fields := fields.insert k v
        match s with
        | ',' :: s => members fuel fields s
        | '\x7d' :: s => return (fields, s)
        | _ => none
      | _ => none

end

/-- The value that the text of a variable spells; the text itself if it spells none. -/
def read (text : String) : Value :=
  let s := Text.trim text.toList
  match value (s.length + 2) s with
  | some (v, []) => v
  | _ => .string (String.ofList s)

/-! ### Several variables -/

/-- A value below nested keys. -/
def nested : List String → Value → Value
  | [], v => v
  | k :: ks, v => .object [(k, nested ks v)]

end HouseRules.Assignment
