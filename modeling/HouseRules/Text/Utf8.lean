import HouseRules.Text.Digits

/-! Texts as sequences of bytes in UTF-8. -/

namespace HouseRules.Text

/-- The bytes of a string. -/
def bytesOf (s : String) : List UInt8 := s.toUTF8.toList

/-! ### Reading one character -/

/-- How a character of several bytes goes on after its first byte: the bounds of the second byte,
how many bytes follow that, and the bits that the first byte contributes. -/
structure Lead where
  low : Nat
  high : Nat
  more : Nat
  bits : Nat

/-- What a first byte of 128 or more announces. The bounds of the second byte leave out
surrogates and codes that fit in fewer bytes. -/
def lead? (b : Nat) : Option Lead :=
  if 0xC2 ≤ b ∧ b ≤ 0xDF then some ⟨0x80, 0xBF, 0, b - 0xC0⟩
  else if b = 0xE0 then some ⟨0xA0, 0xBF, 1, 0⟩
  else if b = 0xED then some ⟨0x80, 0x9F, 1, 0xD⟩
  else if 0xE1 ≤ b ∧ b ≤ 0xEF then some ⟨0x80, 0xBF, 1, b - 0xE0⟩
  else if b = 0xF0 then some ⟨0x90, 0xBF, 2, 0⟩
  else if 0xF1 ≤ b ∧ b ≤ 0xF3 then some ⟨0x80, 0xBF, 2, b - 0xF0⟩
  else if b = 0xF4 then some ⟨0x80, 0x8F, 2, 4⟩
  else none

/-- The code that further bytes complete, and how many bytes belong to it, or to the part of it
that is there. -/
def continueCode (code used : Nat) : Nat → List UInt8 → Option Nat × Nat
  | 0, _ => (some code, used)
  | more + 1, b :: rest =>
    if 0x80 ≤ b.toNat ∧ b.toNat ≤ 0xBF then
      continueCode (code * 64 + (b.toNat - 0x80)) (used + 1) more rest
    else (none, used)
  | _ + 1, [] => (none, used)

/-- The character at the start of a sequence of bytes, and how many bytes after the first belong
to it. Bytes that start no character are taken together as far as they could have. -/
def charAt (b : UInt8) (rest : List UInt8) : Option Char × Nat :=
  if b.toNat < 0x80 then (scalar? b.toNat, 0)
  else match lead? b.toNat, rest with
    | some l, c :: more =>
      if l.low ≤ c.toNat ∧ c.toNat ≤ l.high then
        let (code, used) := continueCode (l.bits * 64 + (c.toNat - 0x80)) 1 l.more more
        (code.bind scalar?, used)
      else (none, 0)
    | _, _ => (none, 0)

/-! ### Reading a text -/

/-- The characters of a sequence of bytes, after those that a character has used up; nothing
stands for bytes that are no character. -/
def charsFrom : Nat → List UInt8 → List (Option Char)
  | _, [] => []
  | used + 1, _ :: bs => charsFrom used bs
  | 0, b :: bs => (charAt b bs).1 :: charsFrom (charAt b bs).2 bs

/-- The text that bytes spell, if all of them are part of characters. -/
def decode? (bytes : List UInt8) : Option String :=
  ((charsFrom 0 bytes).mapM id).map String.ofList

/-- The text that bytes spell, with U+FFFD for those that are no part of a character. -/
def decodeLossy (bytes : List UInt8) : String :=
  String.ofList ((charsFrom 0 bytes).map fun c => c.getD '\uFFFD')

end HouseRules.Text
