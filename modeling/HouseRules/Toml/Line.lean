import HouseRules.Toml.Scalar

/-! TOML lines: keys, values with arrays and inline tables, headers and assignments. -/

namespace HouseRules.Toml

/-! ### Blanks and comments -/

/-- The rest after blanks on the same line. -/
def skipBlanks (s : List Char) : List Char := s.dropWhile fun c => c = ' ' || c = '\t'

/-- The rest after a comment, if one starts here. -/
def skipComment : List Char → List Char
  | '#' :: s => s.dropWhile isPlain
  | s => s

/-- The rest after blanks, comments and line ends. The number bounds how many lines there
are. -/
def skipLines : Nat → List Char → List Char
  | 0, s => s
  | fuel + 1, s =>
    match lineEnd? (skipComment (skipBlanks s)) with
    | some s => skipLines fuel s
    | none => skipBlanks s

/-! ### Keys -/

def isBareKey (c : Char) : Bool := c.isAlphanum || c = '_' || c = '-'

/-- One part of a key, bare or in quotes, and the rest. -/
def simpleKey : List Char → Option (String × List Char)
  | '"' :: s => (basicString (s.length + 1) s).map fun (k, s) => (String.ofList k, s)
  | '\'' :: s => (literalString s).map fun (k, s) => (String.ofList k, s)
  | s =>
    let k := s.takeWhile isBareKey
    if k.isEmpty then none else some (String.ofList k, s.drop k.length)

/-- A key of parts with dots between them, and the rest after blanks. -/
def key : Nat → List Char → Option (List String × List Char)
  | 0, _ => none
  | fuel + 1, s => do
    let (k, s) ← simpleKey (skipBlanks s)
    match skipBlanks s with
    | '.' :: s => (key fuel s).map fun (ks, s) => (k :: ks, s)
    | s => return ([k], s)

/-! ### Inline tables -/

/-- The entries of an inline table while it is read. A table that a key with dots has opened may
be opened again by another. -/
inductive Inline where
  | value (v : Value)
  | table (opened : Bool) (entries : List (String × Inline))
  deriving Inhabited

namespace Inline

def find? (k : String) : List (String × Inline) → Option Inline
  | [] => none
  | (n, i) :: rest => if n = k then some i else find? k rest

def put (k : String) (i : Inline) (entries : List (String × Inline)) : List (String × Inline) :=
  (k, i) :: entries.filter fun e => e.1 ≠ k

/-- Entries with a value set at a key; no entry may be there. -/
def assign (v : Value) : List String → List (String × Inline) → Option (List (String × Inline))
  | [], _ => none
  | [k], entries =>
    match find? k entries with
    | none => some (put k (.value v) entries)
    | some _ => none
  | k :: ks, entries =>
    match find? k entries with
    | none => (assign v ks []).map fun inner => put k (.table true inner) entries
    | some (.table true inner) =>
      (assign v ks inner).map fun inner => put k (.table true inner) entries
    | some _ => none

mutual

def toValue : Inline → Value
  | value v => v
  | table _ entries => .object (toFields entries)

def toFields : List (String × Inline) → Fields
  | [] => []
  | (k, i) :: rest => (toFields rest).insert k i.toValue

end

end Inline

/-! ### Values -/

/-- The token of a number, a date or a word, and the rest. A time may follow a date after one
space. -/
def bareToken (s : List Char) : List Char × List Char :=
  let isToken (c : Char) : Bool := c.isAlphanum || "+-_.:".toList.contains c
  let first := s.takeWhile isToken
  let rest := s.drop first.length
  match date? first, rest with
  | some (_, []), ' ' :: d :: more =>
    if d.isDigit then
      let second := (d :: more).takeWhile isToken
      (first ++ ' ' :: second, (d :: more).drop second.length)
    else (first, rest)
  | _, _ => (first, rest)

/-- The value that a token of no string spells. -/
def bareValue? (token : List Char) : Option Value :=
  if token = "true".toList then some (.bool true)
  else if token = "false".toList then some (.bool false)
  else match integer? token with
    | some v => some v
    | none =>
      match float? token with
      | some v => some v
      | none => dateTime? token

mutual

/-- A value and the rest. The number bounds how many values are read. -/
def value : Nat → List Char → Option (Value × List Char)
  | 0, _ => none
  | fuel + 1, s =>
    match s with
    | '[' :: s => (items fuel s).map fun (vs, s) => (.array vs, s)
    | '\x7b' :: s =>
      match skipBlanks s with
      | '\x7d' :: s => some (.object [], s)
      | s => (members fuel [] s).map fun (es, s) => (.object (Inline.toFields es), s)
    | c :: _ =>
      if c = '"' || c = '\'' then (string? s).map fun (t, s) => (.string (String.ofList t), s)
      else
        let (token, s) := bareToken s
        (bareValue? token).map fun v => (v, s)
    | [] => none

/-- The items of an array up to its closing bracket. -/
def items : Nat → List Char → Option (List Value × List Char)
  | 0, _ => none
  | fuel + 1, s =>
    match skipLines (s.length + 1) s with
    | ']' :: s => some ([], s)
    | s => do
      let (v, s) ← value fuel s
      match skipLines (s.length + 1) s with
      | ',' :: s => (items fuel s).map fun (vs, s) => (v :: vs, s)
      | ']' :: s => return ([v], s)
      | _ => none

/-- The members of an inline table, added to those so far, up to its closing brace. -/
def members : Nat → List (String × Inline) → List Char →
    Option (List (String × Inline) × List Char)
  | 0, _, _ => none
  | fuel + 1, entries, s => do
    let (k, s) ← key (s.length + 1) s
    match s with
    | '=' :: s =>
      let (v, s) ← value fuel (skipBlanks s)
      let entries ← Inline.assign v k entries
      match skipBlanks s with
      | ',' :: s => members fuel entries s
      | '\x7d' :: s => return (entries, s)
      | _ => none
    | _ => none

end

/-! ### Lines -/

/-- One line of a document: a header of a table or of an item of an array of tables, or an
assignment. -/
inductive Line where
  | header (isItem : Bool) (path : List String)
  | assignment (path : List String) (v : Value)

/-- The rest after what may stand at the end of a line, if it ends here. -/
def endOfLine? (s : List Char) : Option (List Char) :=
  match skipComment (skipBlanks s) with
  | [] => some []
  | s => lineEnd? s

/-- A header or an assignment, and the rest of the line. -/
def line? (s : List Char) : Option (Line × List Char) :=
  match s with
  | '[' :: '[' :: s => do
    let (path, s) ← key (s.length + 1) s
    match s with
    | ']' :: ']' :: s => return (.header true path, s)
    | _ => none
  | '[' :: s => do
    let (path, s) ← key (s.length + 1) s
    match s with
    | ']' :: s => return (.header false path, s)
    | _ => none
  | s => do
    let (path, s) ← key (s.length + 1) s
    match s with
    | '=' :: s =>
      let (v, s) ← value (s.length + 1) (skipBlanks s)
      return (.assignment path v, s)
    | _ => none

/-- The lines of a document that hold something. -/
def lines? : Nat → List Char → Option (List Line)
  | 0, _ => none
  | fuel + 1, s =>
    match skipLines (s.length + 1) s with
    | [] => some []
    | s =>
      match skipComment s with
      | [] => some []
      | s => do
        let (line, s) ← line? s
        let s ← endOfLine? s
        return line :: (← lines? fuel s)

end HouseRules.Toml
