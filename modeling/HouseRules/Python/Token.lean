import HouseRules.Python.Identifier
import HouseRules.Python.Layout
import HouseRules.Text.Digits

/-! The tokens of a source text other than strings: words, numbers and symbols, each the longest
that fits. -/

namespace HouseRules.Python

/-- The next token. A string is recognised by how it opens. -/
inductive Token where
  | word (w : String)
  | integer (text : List Char)
  | float (text : List Char)
  | symbol (s : String)
  | string
  /-- No token: the end of the text or a character that starts none. -/
  | nothing
  deriving DecidableEq

/-! ### Words -/

/-- The words that cannot be names. -/
def reservedWords : List String := [
  "False", "None", "True", "and", "as", "assert", "break", "class", "continue", "def", "del",
  "elif", "else", "except", "finally", "for", "from", "global", "if", "import", "in", "is",
  "lambda", "nonlocal", "not", "or", "pass", "raise", "return", "try", "while", "with", "yield"]

def isName (w : String) : Bool := !reservedWords.contains w

/-- The longest word at the start of a text. -/
def wordAt (s : List Char) : List Char :=
  match s with
  | c :: _ => if Identifier.isStart c then s.takeWhile Identifier.isContinue else []
  | [] => []

/-! ### Numbers -/

/-- Digits of a base in groups, an underscore before each group or not. A last underscore with
no digit behind it is left over. -/
def groupedDigits (base : Nat) : List Char → List Char
  | '_' :: d :: s =>
    if Text.isDigitIn base d then '_' :: d :: groupedDigits base s else []
  | d :: s => if Text.isDigitIn base d then d :: groupedDigits base s else []
  | [] => []

/-- Decimal digits, each with at most one underscore behind it. -/
def decimalDigits : List Char → List Char
  | d :: '_' :: s => if d.isDigit then d :: '_' :: decimalDigits s else []
  | d :: s => if d.isDigit then d :: decimalDigits s else []
  | [] => []

/-- One letter of the given ones at the start of a text. -/
def oneOf (letters : List Char) (s : List Char) : List Char :=
  match s with
  | c :: _ => if letters.contains c then [c] else []
  | [] => []

/-- An exponent at the start of a text, or nothing. -/
def exponentAt (s : List Char) : List Char :=
  match s with
  | c :: s =>
    if c = 'e' ∨ c = 'E' then
      let sign := oneOf ['+', '-'] s
      let digits := decimalDigits (s.drop sign.length)
      if digits.isEmpty then [] else c :: sign ++ digits
    else []
  | [] => []

/-- A number in another base at the start of a text, from its zero. -/
def basedAt (s : List Char) : List Char :=
  match s with
  | '0' :: c :: s =>
    let base := match c with
      | 'x' | 'X' => 16
      | 'o' | 'O' => 8
      | 'b' | 'B' => 2
      | _ => 0
    let digits := groupedDigits base s
    if digits.isEmpty then [] else
      '0' :: c :: digits ++ oneOf ['l', 'L'] (s.drop digits.length)
  | _ => []

/-- A decimal number at the start of a text: an integer, or with a point or an exponent. -/
def decimalAt (s : List Char) : Token :=
  let whole := decimalDigits s
  let afterWhole := s.drop whole.length
  let (point, afterPoint) := match afterWhole with
    | '.' :: r => (['.'], r)
    | r => ([], r)
  let fraction := if point.isEmpty then [] else decimalDigits afterPoint
  let exponent := exponentAt (afterPoint.drop fraction.length)
  let afterAll := (afterPoint.drop fraction.length).drop exponent.length
  if whole.isEmpty && fraction.isEmpty then .nothing
  else if point.isEmpty && exponent.isEmpty then
    .integer (whole ++ oneOf ['l', 'L', 'j', 'J'] afterAll)
  else .float (whole ++ point ++ fraction ++ exponent ++ oneOf ['j', 'J'] afterAll)

/-- A number at the start of a text. -/
def numberAt (s : List Char) : Token :=
  match basedAt s with
  | [] => decimalAt s
  | text => .integer text

/-! ### Symbols -/

/-- The symbols, longer ones first. -/
def symbols : List String := [
  "**=", "//=", ">>=", "<<=", "...",
  "->", ":=", "**", "//", ">>", "<<", "<=", ">=", "==", "!=", "<>", "+=", "-=", "*=", "/=",
  "%=", "@=", "&=", "|=", "^=",
  "(", ")", "[", "]", "\x7b", "\x7d", ",", ":", ";", ".", "=", "+", "-", "*", "/", "%", "@",
  "<", ">", "&", "|", "^", "~"]

/-- The symbols with their characters. -/
def spelledSymbols : List (List Char × String) := symbols.map fun x => (x.toList, x)

/-- The longest symbol at the start of a text. -/
def symbolAt? (s : List Char) : Option String :=
  (spelledSymbols.find? fun (cs, _) => cs.isPrefixOf s).map Prod.snd

/-! ### The next token -/

/-- The token at the start of a text, where a string is expected or not. -/
def tokenAt (strings : Bool) (s : List Char) : Token :=
  match s with
  | [] => .nothing
  | c :: r =>
    if strings && (stringStart? s).isSome then .string
    else if Identifier.isStart c then .word (String.ofList (wordAt s))
    else if c.isDigit || (c = '.' && (r.headD ' ').isDigit) then numberAt s
    else match symbolAt? s with
      | some x => .symbol x
      | none => .nothing

namespace Token

/-- How many characters a token other than a string takes. -/
def length : Token → Nat
  | word w => w.length
  | integer text | float text => text.length
  | symbol s => s.length
  | string | nothing => 0

/-- Whether an expression can start with a token. -/
def startsExpression : Token → Bool
  | word w => isName w || w ∈ ["True", "False", "None", "not", "lambda"]
  | integer _ | float _ | string => true
  | symbol s => s ∈ ["(", "[", "\x7b", "-", "+", "~", "*", "..."]
  | nothing => false

end Token

end HouseRules.Python
