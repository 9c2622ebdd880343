import HouseRules.Decimal.Binary64

/-! The text of a floating point number: the fewest digits that read back as the number, and
among those the nearest to it. -/

namespace HouseRules.Binary64

/-! ### The fewest digits -/

/-- The exponent of the leading decimal digit of a positive quotient: `10 ^ k ≤ num / den` and
`num / den < 10 ^ (k + 1)`. -/
def leadingExponent (num den : Nat) : Int :=
  let guess : Int := ((Nat.log2 num : Int) - Nat.log2 den) * 30103 / 100000
  let below (k : Int) : Bool := num * Nat.pow 10 (-k).toNat < den * Nat.pow 10 k.toNat
  if below guess then guess - 1 else if below (guess + 1) then guess else guess + 1

/-- A decimal number of at most `count` digits that is one of the two neighbours of the
quotient on that grid and reads back as `x`; the nearer one when both do. -/
def candidate? (x : Binary64) (num den : Nat) (k : Int) (count : Nat) : Option Decimal :=
  let s : Int := k - count + 1
  let n := num * Nat.pow 10 (-s).toNat
  let d := den * Nat.pow 10 s.toNat
  let low : Decimal := ⟨false, n / d, s⟩
  let high : Decimal := ⟨false, n / d + 1, s⟩
  let choices := if 2 * (n % d) ≤ d then [low, high] else [high, low]
  choices.find? fun c => ofDecimal c = x

/-- The decimal number with the fewest digits that reads back as the positive number
`significand · 2 ^ exponent`; 17 digits are always enough. -/
def shortest (significand : Nat) (exponent : Int) : Decimal :=
  let num := significand * Nat.pow 2 exponent.toNat
  let den := Nat.pow 2 (-exponent).toNat
  let k := leadingExponent num den
  let found := (List.range 17).findSome? fun i =>
    candidate? (.finite false significand exponent) num den k (i + 1)
  found.getD ⟨false, 0, 0⟩

/-! ### Layout -/

/-- Digits without the zeros at their end, and how many there were. -/
def dropZeros (digits : List Char) : List Char × Nat :=
  let kept := (digits.reverse.dropWhile (· = '0')).reverse
  (kept, digits.length - kept.length)

/-- The digits with a point so that their first one has the weight `10 ^ lead`: positional,
with a digit on either side of the point, for `lead` from -5 to 15, else with an exponent that
carries a sign. -/
def layOut (digits : List Char) (lead : Int) : List Char :=
  if 0 ≤ lead ∧ lead ≤ 15 then
    let whole := lead.toNat + 1
    let fraction := digits.drop whole
    digits.take whole ++ List.replicate (whole - digits.length) '0' ++ '.' ::
      (if fraction.isEmpty then ['0'] else fraction)
  else if -5 ≤ lead ∧ lead < 0 then
    '0' :: '.' :: List.replicate ((-lead).toNat - 1) '0' ++ digits
  else
    let mantissa := match digits with
      | [] => ['0']
      | [d] => [d]
      | d :: ds => d :: '.' :: ds
    let sign := if lead < 0 then '-' else '+'
    mantissa ++ 'e' :: sign :: (Text.decimal lead.natAbs).toList

/-- The text of a number. One that is not finite has no digits and is written `null`. -/
def text : Binary64 → String
  | .finite negative 0 _ => if negative then "-0.0" else "0.0"
  | .finite negative significand exponent =>
    let d := shortest significand exponent
    let all := (Text.decimal d.digits).toList
    let (digits, zeros) := dropZeros all
    let lead : Int := d.exponent + zeros + digits.length - 1
    String.ofList ((if negative then ['-'] else []) ++ layOut digits lead)
  | _ => "null"

end HouseRules.Binary64
