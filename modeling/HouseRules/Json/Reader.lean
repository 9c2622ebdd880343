import HouseRules.Json.Tree
import HouseRules.Value.Basic

/-! The values that JSON texts denote: escapes are decoded, integers of 64 bits stay integers,
other numbers become the nearest floating point numbers, and of two members with one name the
later counts. -/

namespace HouseRules.Json

/-! ### Strings -/

/-- The number of four hexadecimal digits. -/
def hex4 (a b c d : Char) : Nat := (Text.number? 16 [a, b, c, d]).getD 0

/-- The character of a pair of surrogates. -/
def pairedScalar? (high low : Nat) : Option Char :=
  if 0xD800 ≤ high ∧ high < 0xDC00 ∧ 0xDC00 ≤ low ∧ low < 0xE000 then
    Text.scalar? (0x10000 + (high - 0xD800) * 0x400 + (low - 0xDC00))
  else none

/-- The character of a one-letter escape. -/
def escaped (c : Char) : Char :=
  match c with
  | 'b' => '\x08'
  | 'f' => '\x0c'
  | 'n' => '\n'
  | 'r' => '\r'
  | 't' => '\t'
  | c => c

/-- The characters that the spelling of a string denotes. A surrogate counts only as one of a
pair. -/
def decodeString : List Char → Option (List Char)
  | [] => some []
  | '\\' :: 'u' :: a :: b :: c :: d :: s =>
    match Text.scalar? (hex4 a b c d) with
    | some x => (decodeString s).map (x :: ·)
    | none =>
      match s with
      | '\\' :: 'u' :: a' :: b' :: c' :: d' :: s =>
        match pairedScalar? (hex4 a b c d) (hex4 a' b' c' d') with
        | some x => (decodeString s).map (x :: ·)
        | none => none
      | _ => none
  | '\\' :: c :: s => (decodeString s).map (escaped c :: ·)
  | c :: s => (decodeString s).map (c :: ·)

def string? (text : List Char) : Option String := (decodeString text).map String.ofList

/-! ### Numbers -/

/-- The integer that digits after an optional minus sign denote. -/
def integer? : List Char → Option Int
  | '-' :: s => (Text.number? 10 s).map fun n => -(n : Int)
  | s => (Text.number? 10 s).map fun n => (n : Int)

/-- The value of a number: an integer where it is spelled as one and fits in 64 bits, else a
floating point number, which must be finite. A negative zero is a floating point number. -/
def number? (text : List Char) : Option Value :=
  let asFloat := (Binary64.parse? text).bind fun x => if x.isFinite then some (.float x) else none
  if text = ['-', '0'] then asFloat
  else match integer? text with
    | some n => if Value.inRange n then some (.int n) else asFloat
    | none => asFloat

/-! ### Values -/

mutual

/-- The value that a JSON text denotes. -/
def Tree.value? : Tree → Option Value
  | .null => some .null
  | .bool b => some (.bool b)
  | .number text => number? text
  | .string text => (string? text).map .string
  | .array items => (valueItems? items).map .array
  | .object members => (valueMembers? members []).map .object

def valueItems? : List Tree → Option (List Value)
  | [] => some []
  | t :: ts => do return (← t.value?) :: (← valueItems? ts)

/-- The members added one by one to the fields so far. -/
def valueMembers? : List (List Char × Tree) → Fields → Option Fields
  | [], fields => some fields
  | (name, t) :: ms, fields => do
    let name ← string? name
    let value ← t.value?
    valueMembers? ms (fields.insert name value)

end

/-- The value of a whole JSON text of any depth. -/
def read? (s : String) : Option Value := (Tree.read? s.toList).bind Tree.value?

end HouseRules.Json
