import HouseRules.Decimal.Shortest
import HouseRules.Value.Basic

/-! Compact JSON text of values: no blanks, and fields in the order of their object. -/

namespace HouseRules.Json

/-! ### Strings -/

/-- A character inside quotes. Quotes, backslashes and control characters are escaped. -/
def writeChar (c : Char) : List Char :=
  if c = '"' then ['\\', '"']
  else if c = '\\' then ['\\', '\\']
  else if c = '\x08' then ['\\', 'b']
  else if c = '\x0c' then ['\\', 'f']
  else if c = '\n' then ['\\', 'n']
  else if c = '\r' then ['\\', 'r']
  else if c = '\t' then ['\\', 't']
  else if c < ' ' then '\\' :: 'u' :: Text.hexDigits 4 c.toNat
  else [c]

/-- A string in quotes. -/
def writeString (s : String) : List Char := '"' :: s.toList.flatMap writeChar ++ ['"']

/-! ### Values -/

/-- Members inside braces, with a comma between each two. -/
def writeMembers : List (String × List Char) → List Char
  | [] => []
  | [(name, text)] => writeString name ++ ':' :: text
  | (name, text) :: m :: ms => writeString name ++ ':' :: text ++ ',' :: writeMembers (m :: ms)

/-- An object of members that are written already. -/
def writeObject (members : List (String × List Char)) : List Char :=
  '\x7b' :: writeMembers members ++ ['\x7d']

mutual

/-- The compact text of a value. -/
def write : Value → List Char
  | .null => "null".toList
  | .bool b => (if b then "true" else "false").toList
  | .int n => (Text.decimalInt n).toList
  | .float x => x.text.toList
  | .string s => writeString s
  | .array items => '[' :: writeItems items ++ [']']
  | .object fields => '\x7b' :: writeFields fields ++ ['\x7d']

def writeItems : List Value → List Char
  | [] => []
  | [v] => write v
  | v :: w :: vs => write v ++ ',' :: writeItems (w :: vs)

def writeFields : List (String × Value) → List Char
  | [] => []
  | [(n, v)] => writeString n ++ ':' :: write v
  | (n, v) :: f :: fs => writeString n ++ ':' :: write v ++ ',' :: writeFields (f :: fs)

end

/-- The compact text of a value as a string. -/
def text (v : Value) : String := String.ofList (write v)

end HouseRules.Json
