import HouseRules.Text.Blank
import HouseRules.Value.Basic

/-! TOML strings, numbers and dates. Readers take a text and give what they read with the rest,
or nothing. -/

namespace HouseRules.Toml

/-- The rest after a line end, if there is one. -/
def lineEnd? : List Char → Option (List Char)
  | '\n' :: s => some s
  | '\r' :: '\n' :: s => some s
  | _ => none

/-- Whether a character may stand in a comment or a literal string: no control characters but
the tab. -/
def isPlain (c : Char) : Bool := c = '\t' || (' ' ≤ c && c ≠ '\x7f')

/-! ### Strings -/

/-- The character of an escape of some hexadecimal digits, and the rest. -/
def codeEscape (width : Nat) (s : List Char) : Option (Char × List Char) :=
  let digits := s.take width
  if digits.length < width then none
  else do
    let c ← Text.scalar? (← Text.number? 16 digits)
    return (c, s.drop width)

/-- The character of an escape after its backslash, and the rest. -/
def escape? : List Char → Option (Char × List Char)
  | 'b' :: s => some ('\x08', s)
  | 't' :: s => some ('\t', s)
  | 'n' :: s => some ('\n', s)
  | 'f' :: s => some ('\x0c', s)
  | 'r' :: s => some ('\r', s)
  | '"' :: s => some ('"', s)
  | '\\' :: s => some ('\\', s)
  | 'u' :: s => codeEscape 4 s
  | 'U' :: s => codeEscape 8 s
  | _ => none

/-- The rest of a basic string after its opening quote. The number bounds the length. -/
def basicString : Nat → List Char → Option (List Char × List Char)
  | 0, _ => none
  | fuel + 1, s =>
    match s with
    | '"' :: s => some ([], s)
    | '\\' :: s => do
      let (c, s) ← escape? s
      let (cs, s) ← basicString fuel s
      return (c :: cs, s)
    | c :: s =>
      if isPlain c then (basicString fuel s).map fun (cs, s) => (c :: cs, s) else none
    | [] => none

/-- The rest of a literal string after its opening quote. -/
def literalString (s : List Char) : Option (List Char × List Char) :=
  let body := s.takeWhile fun c => isPlain c && c ≠ '\''
  match s.drop body.length with
  | '\'' :: s => some (body, s)
  | _ => none

/-- The quotes at the start of a text that close a string of several lines: three, and up to two
before those that belong to the string. -/
def closingQuotes (quote : Char) (s : List Char) : Option (List Char × List Char) :=
  let count := (s.takeWhile (· = quote)).length
  if count < 3 ∨ 5 < count then none
  else some (List.replicate (count - 3) quote, s.drop count)

/-- The rest after blanks and line ends. -/
def skipBlankLines : List Char → List Char
  | ' ' :: s | '\t' :: s | '\n' :: s => skipBlankLines s
  | '\r' :: '\n' :: s => skipBlankLines s
  | s => s

/-- The rest after a backslash at the end of a line: blanks, a line end, and all blanks and line
ends that follow. -/
def foldedLine? (s : List Char) : Option (List Char) :=
  (lineEnd? (s.dropWhile fun c => c = ' ' || c = '\t')).map skipBlankLines

/-- The rest of a string of several lines after its opening quotes, with escapes or without. -/
def longString (quote : Char) (escapes : Bool) : Nat → List Char → Option (List Char × List Char)
  | 0, _ => none
  | fuel + 1, s =>
    let continueWith (c : Char) (s : List Char) :=
      (longString quote escapes fuel s).map fun (cs, s) => (c :: cs, s)
    match s with
    | '\r' :: '\n' :: s => continueWith '\n' s
    | c :: s =>
      if c = quote then
        match closingQuotes quote (c :: s) with
        | some r => some r
        | none => if (s.take 2) = [quote, quote] then none else continueWith c s
      else if c = '\\' && escapes then
        match foldedLine? s with
        | some s => longString quote escapes fuel s
        | none => do
          let (c, s) ← escape? s
          continueWith c s
      else if c = '\n' || isPlain c then continueWith c s
      else none
    | [] => none

/-- The rest after a line end directly behind the opening quotes, which does not count. -/
def skipFirstLineEnd (s : List Char) : List Char := (lineEnd? s).getD s

/-- A string and the rest. -/
def string? (s : List Char) : Option (List Char × List Char) :=
  match s with
  | '"' :: '"' :: '"' :: s => longString '"' true (s.length + 1) (skipFirstLineEnd s)
  | '\'' :: '\'' :: '\'' :: s => longString '\'' false (s.length + 1) (skipFirstLineEnd s)
  | '"' :: s => basicString (s.length + 1) s
  | '\'' :: s => literalString s
  | _ => none

/-! ### Numbers -/

/-- Digits without underscores, if each underscore stands between two digits. -/
def ungrouped? (base : Nat) (s : List Char) : Option (List Char) :=
  let rec go (afterDigit : Bool) : List Char → Option (List Char)
    | [] => if afterDigit then some [] else none
    | '_' :: s => if afterDigit then go false s else none
    | c :: s => if Text.isDigitIn base c then (go true s).map (c :: ·) else none
  go false s

/-- A decimal integer without a sign: no zero before other digits. -/
def decimal? (s : List Char) : Option (List Char) :=
  (ungrouped? 10 s).filter fun ds => ds.length = 1 || ds.head? ≠ some '0'

/-- An integer of 64 bits with a sign. -/
def signed64? (n : Int) : Option Value :=
  if -0x8000000000000000 ≤ n ∧ n < 0x8000000000000000 then some (.int n) else none

/-- The integer that a whole token spells. -/
def integer? (token : List Char) : Option Value :=
  match token with
  | '0' :: 'x' :: ds => (ungrouped? 16 ds).bind fun ds =>
      (Text.number? 16 ds).bind fun n => signed64? n
  | '0' :: 'o' :: ds => (ungrouped? 8 ds).bind fun ds =>
      (Text.number? 8 ds).bind fun n => signed64? n
  | '0' :: 'b' :: ds => (ungrouped? 2 ds).bind fun ds =>
      (Text.number? 2 ds).bind fun n => signed64? n
  | '-' :: ds => (decimal? ds).bind fun ds => (Text.number? 10 ds).bind fun n => signed64? (-n)
  | '+' :: ds => (decimal? ds).bind fun ds => (Text.number? 10 ds).bind fun n => signed64? n
  | ds => (decimal? ds).bind fun ds => (Text.number? 10 ds).bind fun n => signed64? n

/-- The floating point number that a whole token spells. A number too large is refused, but not
a negative one. -/
def float? (token : List Char) : Option Value :=
  let (negative, body) := Decimal.takeSign token
  if body = "inf".toList then some (.float (.infinite negative))
  else if body = "nan".toList then some (.float .nan)
  else
    let whole := body.takeWhile fun c => c.isDigit || c = '_'
    let rest := body.drop whole.length
    let fraction := match rest with
      | '.' :: s => s.takeWhile fun c => c.isDigit || c = '_'
      | _ => []
    let hasPoint := rest.head? = some '.'
    let exponent := if hasPoint then rest.drop (fraction.length + 1) else rest
    let exponentOk := match exponent with
      | [] => hasPoint
      | c :: s => (c = 'e' || c = 'E') && (ungrouped? 10 (Decimal.takeSign s).2).isSome
    let fractionOk := !hasPoint || (ungrouped? 10 fraction).isSome
    if (decimal? whole).isSome && fractionOk && exponentOk then
      match Binary64.parse? (token.filter (· ≠ '_')) with
      | some (.infinite false) => none
      | some x => some (.float x)
      | none => none
    else none

/-! ### Dates -/

/-- The number of exactly some decimal digits, and the rest. -/
def fixedDigits (width : Nat) (s : List Char) : Option (Nat × List Char) :=
  let digits := s.take width
  if digits.length < width then none
  else (Text.number? 10 digits).map fun n => (n, s.drop width)

/-- The rest after one given character. -/
def after (c : Char) : List Char → Option (List Char)
  | x :: s => if x = c then some s else none
  | [] => none

/-- A number with zeros before it up to a width. -/
def padded (width n : Nat) : List Char :=
  let digits := (Text.decimal n).toList
  List.replicate (width - digits.length) '0' ++ digits

def isLeapYear (y : Nat) : Bool := y % 4 = 0 && (y % 100 ≠ 0 || y % 400 = 0)

def daysIn (year month : Nat) : Nat :=
  if month = 2 then (if isLeapYear year then 29 else 28)
  else if month ∈ [4, 6, 9, 11] then 30 else 31

/-- A date in its normal form, and the rest. -/
def date? (s : List Char) : Option (List Char × List Char) := do
  let (year, s) ← fixedDigits 4 s
  let (month, s) ← fixedDigits 2 (← after '-' s)
  let (day, s) ← fixedDigits 2 (← after '-' s)
  if 1 ≤ month ∧ month ≤ 12 ∧ 1 ≤ day ∧ day ≤ daysIn year month then
    some (padded 4 year ++ '-' :: padded 2 month ++ '-' :: padded 2 day, s)
  else none

/-- A fraction of a second in its normal form: at most nine digits, without zeros at the end. -/
def fraction? : List Char → Option (List Char × List Char)
  | '.' :: s =>
    let digits := s.takeWhile Char.isDigit
    if digits.isEmpty then none
    else
      let kept := ((digits.take 9).reverse.dropWhile (· = '0')).reverse
      some (if kept.isEmpty then [] else '.' :: kept, s.drop digits.length)
  | s => some ([], s)

/-- A time of day in its normal form, and the rest. -/
def time? (s : List Char) : Option (List Char × List Char) := do
  let (hour, s) ← fixedDigits 2 s
  let (minute, s) ← fixedDigits 2 (← after ':' s)
  let (second, s) ← fixedDigits 2 (← after ':' s)
  let (fraction, s) ← fraction? s
  if hour ≤ 23 ∧ minute ≤ 59 ∧ second ≤ 60 then
    some (padded 2 hour ++ ':' :: padded 2 minute ++ ':' :: padded 2 second ++ fraction, s)
  else none

/-- An offset from universal time in its normal form, or nothing, up to the end. -/
def offset? : List Char → Option (List Char)
  | [] => some []
  | ['Z'] | ['z'] => some ['Z']
  | c :: s => do
    if c ≠ '+' ∧ c ≠ '-' then none
    let (hour, s) ← fixedDigits 2 s
    let (minute, s) ← fixedDigits 2 (← after ':' s)
    let sign := if hour = 0 ∧ minute = 0 then '+' else c
    if s.isEmpty ∧ hour ≤ 23 ∧ minute ≤ 59 then
      some (sign :: padded 2 hour ++ ':' :: padded 2 minute)
    else none

/-- The name of the only field of the object that stands for a date. -/
def dateField : String := "$__toml_private_datetime"

/-- The normal form of the date, the time or both that a whole token spells. -/
def dateTimeText? (token : List Char) : Option (List Char) :=
  match date? token with
  | some (date, []) => some date
  | some (date, c :: s) =>
    if c = 'T' ∨ c = 't' ∨ c = ' ' then do
      let (time, s) ← time? s
      let offset ← offset? s
      return date ++ 'T' :: time ++ offset
    else none
  | none =>
    match time? token with
    | some (time, []) => some time
    | _ => none

/-- The value of the date, the time or both that a whole token spells. -/
def dateTime? (token : List Char) : Option Value :=
  (dateTimeText? token).map fun text =>
    .object [(dateField, .string (String.ofList text))]

end HouseRules.Toml
