import HouseRules.Decimal.Number

/-! Binary floating point numbers of 64 bits as exact values, and the rounding of a decimal
number to the nearest of them. -/

namespace HouseRules

/-- A 64-bit floating point number. A finite one is `± significand · 2 ^ exponent`, where the
significand is below `2 ^ 53` and, unless the exponent is the least, at least `2 ^ 52`. -/
inductive Binary64 where
  | finite (negative : Bool) (significand : Nat) (exponent : Int)
  | infinite (negative : Bool)
  | nan
  deriving DecidableEq

namespace Binary64

/-- The exponent of the smallest numbers. -/
def leastExponent : Int := -1074

/-- The exponent of the largest numbers. -/
def greatestExponent : Int := 971

def zero (negative : Bool) : Binary64 := .finite negative 0 leastExponent

def isFinite : Binary64 → Bool
  | .finite .. => true
  | _ => false

/-- The number with the opposite sign. -/
def negate : Binary64 → Binary64
  | .finite negative m e => .finite (!negative) m e
  | .infinite negative => .infinite (!negative)
  | .nan => .nan

/-! ### Rounding -/

/-- The quotient rounded to the nearest integer, and to the even one of two. -/
def roundQuotient (num den : Nat) : Nat :=
  let q := num / den
  let r := num % den
  if 2 * r < den then q else if den < 2 * r then q + 1 else q + q % 2

/-- The numerator and denominator of `num / den / 2 ^ e`. -/
def scale (num den : Nat) (e : Int) : Nat × Nat :=
  (num * Nat.pow 2 (-e).toNat, den * Nat.pow 2 e.toNat)

/-- The exponent at which a positive quotient has 53 binary digits before the point. -/
def exponentOf (num den : Nat) : Int :=
  let e : Int := Nat.log2 num - Nat.log2 den - 52
  let (n, d) := scale num den e
  if n / d < Nat.pow 2 52 then e - 1 else e

/-- The number nearest to a quotient. -/
def ofQuotient (negative : Bool) (num den : Nat) : Binary64 :=
  if num = 0 then zero negative
  else
    let e := max (exponentOf num den) leastExponent
    let (n, d) := scale num den e
    let m := roundQuotient n d
    let (m, e) := if m = Nat.pow 2 53 then (Nat.pow 2 52, e + 1) else (m, e)
    if greatestExponent < e then .infinite negative else .finite negative m e

/-- The number nearest to a decimal number. Beyond these powers of ten the nearest number is
infinite or zero, whatever the digits. -/
def ofDecimal (x : Decimal) : Binary64 :=
  let magnitude : Int := (Nat.log2 x.digits : Int) * 3 / 10 + x.exponent
  if x.digits = 0 then zero x.negative
  else if 400 < magnitude then .infinite x.negative
  else if magnitude + Nat.log2 x.digits < -400 then zero x.negative
  else ofQuotient x.negative (x.digits * Nat.pow 10 x.exponent.toNat)
    (Nat.pow 10 (-x.exponent).toNat)

/-- The number that a text denotes: a decimal number, or one of the words `inf`, `infinity`
and `nan` in any letter case after an optional sign. -/
def parse? (s : List Char) : Option Binary64 :=
  let (negative, word) := Decimal.takeSign s
  let word := word.map Char.toLower
  if word = "inf".toList ∨ word = "infinity".toList then some (.infinite negative)
  else if word = "nan".toList then some .nan
  else (Decimal.parse? s).map ofDecimal

end Binary64

end HouseRules
