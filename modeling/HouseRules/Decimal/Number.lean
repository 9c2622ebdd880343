import HouseRules.Text.Digits

/-! Decimal numbers: a sign, an integer of digits and a power of ten, as a text with a point
and an exponent denotes them. -/

namespace HouseRules

/-- The number `± digits · 10 ^ exponent`. -/
structure Decimal where
  negative : Bool
  digits : Nat
  exponent : Int
  deriving DecidableEq

namespace Decimal

/-- The leading sign of a text, and the rest. -/
def takeSign : List Char → Bool × List Char
  | '-' :: s => (true, s)
  | '+' :: s => (false, s)
  | s => (false, s)

/-- The exponent that an `e` introduces; nothing at all is the exponent zero. -/
def exponent? : List Char → Option Int
  | [] => some 0
  | c :: s =>
    if c = 'e' ∨ c = 'E' then
      let (negative, digits) := takeSign s
      (Text.number? 10 digits).map fun n => if negative then -(n : Int) else n
    else none

/-- The number that an optional sign, digits with at most one point among or beside them and
an optional exponent denote. At least one digit is needed before the exponent. -/
def parse? (s : List Char) : Option Decimal := do
  let (negative, s) := takeSign s
  let whole := s.takeWhile Char.isDigit
  let s := s.dropWhile Char.isDigit
  let (fraction, s) := match s with
    | '.' :: s => (s.takeWhile Char.isDigit, s.dropWhile Char.isDigit)
    | s => ([], s)
  let digits ← Text.number? 10 (whole ++ fraction)
  let exponent ← exponent? s
  return ⟨negative, digits, exponent - fraction.length⟩

end Decimal

end HouseRules
