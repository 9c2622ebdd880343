import HouseRules.Decimal.Shortest
import HouseRules.Python.StringLiteral
import HouseRules.Python.Syntax
import HouseRules.Value.Basic

/-! The values that literal expressions denote. Other expressions denote none. -/

namespace HouseRules.Python.Expr

/-! ### Numbers -/

/-- A number token without underscores and in lower case. -/
def plainDigits (token : List Char) : List Char :=
  (token.filter (· ≠ '_')).map Char.toLower

/-- The number that an integer token denotes. A suffix makes it no plain integer. -/
def integerOf? (token : List Char) : Option Nat :=
  let digits := plainDigits token
  let last := digits.getLast?
  if last = some 'j' || last = some 'l' then none
  else match digits with
    | '0' :: 'x' :: ds => Text.number? 16 ds
    | '0' :: 'o' :: ds => Text.number? 8 ds
    | '0' :: 'b' :: ds => Text.number? 2 ds
    | ds => Text.number? 10 ds

def integerValue? (token : List Char) : Option Value :=
  (integerOf? token).bind fun n => Value.ofInt? n

/-- A floating point number as a value, if it is finite. -/
def finite? (x : Binary64) : Option Value := if x.isFinite then some (.float x) else none

def floatValue? (token : List Char) : Option Value :=
  let digits := plainDigits token
  if digits.getLast? = some 'j' then none else (Binary64.parse? digits).bind finite?

/-- A number with a sign before it. -/
def signedValue? (negative : Bool) : Value → Option Value
  | .int n => if negative then Value.ofInt? (-n) else some (.int n)
  | .float x => some (.float (if negative then x.negate else x))
  | _ => none

/-! ### Strings -/

/-- The text that string tokens next to each other denote. -/
def stringOf? (tokens : List (List Char)) : Option String :=
  (tokens.mapM decodeLiteral?).map fun parts => String.ofList parts.flatten

/-! ### Values -/

/-- The text of a dictionary key. Lists and dictionaries are no keys. -/
def keyText? : Value → Option String
  | .string s => some s
  | .int n => some (Text.decimalInt n)
  | .float x => some x.text
  | .bool b => some (if b then "true" else "false")
  | .null => some "null"
  | .array _ | .object _ => none

mutual

/-- The value that a literal denotes. -/
def value? : Expr → Option Value
  | string tokens => (stringOf? tokens).map .string
  | integer token => integerValue? token
  | float token => floatValue? token
  | bool b => some (.bool b)
  | null => some .null
  | signed negative operand => operand.value?.bind (signedValue? negative)
  | parenthesized inner => inner.value?
  | display _ items => (itemValues? items).map .array
  | dict pairs => (pairValues? pairs []).map .object
  | _ => none

def itemValues? : List Expr → Option (List Value)
  | [] => some []
  | e :: es => do return (← e.value?) :: (← itemValues? es)

/-- The fields so far with those of the pairs added; of two with one key the later counts. -/
def pairValues? : List (Expr × Expr) → Fields → Option Fields
  | [], fields => some fields
  | (k, v) :: pairs, fields => do
    let key ← k.value?
    let value ← v.value?
    let name ← keyText? key
    pairValues? pairs (fields.insert name value)

end

/-- The text of an expression that is a plain string. -/
def text? : Expr → Option String
  | string tokens => stringOf? tokens
  | _ => none

end HouseRules.Python.Expr
