import HouseRules.Json.Reader
import HouseRules.Json.Writer
import HouseRules.Proofs.Text.Numeral

/-! Strings and integers as they are written in JSON: each is read as far as it goes and not
further, and denotes what was written. No control character stands in them. -/

namespace HouseRules.Json

open Text (Numeral)

/-! ### Characters -/

/-- A character of a string is written in one of three ways: by a letter, by its code, or as it
is. -/
theorem writeChar_cases (c : Char) :
    (∃ letter ∈ ['"', '\\', 'b', 'f', 'n', 'r', 't'], escaped letter = c ∧
      writeChar c = ['\\', letter]) ∨
    (c.toNat < 32 ∧ ∃ d₁ d₂ d₃ d₄, Numeral 16 [d₁, d₂, d₃, d₄] c.toNat ∧
      writeChar c = ['\\', 'u', d₁, d₂, d₃, d₄]) ∨
    (c ≠ '"' ∧ c ≠ '\\' ∧ 32 ≤ c.toNat ∧ writeChar c = [c]) := by
  by_cases quote : c = '"'
  · exact .inl ⟨'"', by decide, quote.symm, by rw [quote]; rfl⟩
  by_cases backslash : c = '\\'
  · exact .inl ⟨'\\', by decide, backslash.symm, by rw [backslash]; rfl⟩
  by_cases back : c = '\x08'
  · exact .inl ⟨'b', by decide, back.symm, by rw [back]; rfl⟩
  by_cases page : c = '\x0c'
  · exact .inl ⟨'f', by decide, page.symm, by rw [page]; rfl⟩
  by_cases feed : c = '\n'
  · exact .inl ⟨'n', by decide, feed.symm, by rw [feed]; rfl⟩
  by_cases carriage : c = '\r'
  · exact .inl ⟨'r', by decide, carriage.symm, by rw [carriage]; rfl⟩
  by_cases tab : c = '\t'
  · exact .inl ⟨'t', by decide, tab.symm, by rw [tab]; rfl⟩
  rw [writeChar, if_neg quote, if_neg backslash, if_neg back, if_neg page, if_neg feed,
    if_neg carriage, if_neg tab]
  by_cases control : c < ' '
  · have small : c.toNat < 32 := control
    have fits : c.toNat < 16 ^ 4 := by omega
    have digits := Text.numeral_hexDigits fits
    exact .inr (.inl ⟨small, _, _, _, _, digits, if_pos control⟩)
  · exact .inr (.inr ⟨quote, backslash, Nat.not_lt.1 control, if_neg control⟩)

theorem isHex_of_numeral {n : Nat} {digits : List Char} (h : Numeral 16 digits n) :
    ∀ c ∈ digits, isHex c = true := fun _ mem => h.isDigitIn (by decide) mem

/-- Scanning a string passes over a written character as a whole. -/
theorem scanString_writeChar (c : Char) (s : List Char) :
    scanString (writeChar c ++ s) = (scanString s).map fun (t, r) => (writeChar c ++ t, r) := by
  obtain ⟨letter, known, -, hc⟩ | ⟨-, d₁, d₂, d₃, d₄, numeral, hc⟩ | ⟨quote, backslash, low, hc⟩ :=
    writeChar_cases c
  · rw [hc]
    simp only [List.mem_cons, List.not_mem_nil, or_false] at known
    rcases known with rfl | rfl | rfl | rfl | rfl | rfl | rfl <;> rfl
  · have hex := isHex_of_numeral numeral
    simp only [List.mem_cons, List.not_mem_nil, or_false, forall_eq_or_imp, forall_eq] at hex
    obtain ⟨h₁, h₂, h₃, h₄⟩ := hex
    rw [hc, List.cons_append, List.cons_append, List.cons_append, List.cons_append,
      List.cons_append, List.cons_append, List.nil_append, scanString]
    simp only [h₁, h₂, h₃, h₄, Bool.and_self, if_true]
    rfl
  · have control : ¬(c < ' ' ∨ c = '\\') := by
      rintro (h | h)
      · exact absurd (show c.toNat < 32 from h) (Nat.not_lt.2 low)
      · exact backslash h
    rw [hc, List.singleton_append]
    rw [scanString.eq_def]
    split
    · rename_i h
      cases h
    · rename_i h
      exact absurd (List.cons.inj h).1 quote
    · rename_i h
      exact absurd (List.cons.inj h).1 backslash
    · rename_i h
      exact absurd (List.cons.inj h).1 backslash
    · rename_i h
      cases h
      rw [if_neg control]
      rfl

/-- Decoding a written character gives it back. -/
theorem decodeString_writeChar (c : Char) (s : List Char) :
    decodeString (writeChar c ++ s) = (decodeString s).map (c :: ·) := by
  obtain ⟨letter, known, hletter, hc⟩ | ⟨-, d₁, d₂, d₃, d₄, numeral, hc⟩ | ⟨-, backslash, -, hc⟩ :=
    writeChar_cases c
  · rw [hc, ← hletter]
    simp only [List.mem_cons, List.not_mem_nil, or_false] at known
    rcases known with rfl | rfl | rfl | rfl | rfl | rfl | rfl <;> rfl
  · have code : hex4 d₁ d₂ d₃ d₄ = c.toNat := by
      rw [hex4, numeral.number? (List.cons_ne_nil _ _), Option.getD_some]
    rw [hc, List.cons_append, List.cons_append, List.cons_append, List.cons_append,
      List.cons_append, List.cons_append, List.nil_append, decodeString.eq_def]
    simp only [code, Text.scalar?_toNat]
  · rw [hc, List.singleton_append]
    rw [decodeString.eq_def]
    split
    · rename_i h
      cases h
    · rename_i h
      exact absurd (List.cons.inj h).1 backslash
    · rename_i h
      exact absurd (List.cons.inj h).1 backslash
    · rename_i h
      cases h
      rfl

theorem le_of_mem_writeChar {c d : Char} (h : d ∈ writeChar c) : 32 ≤ d.toNat := by
  obtain ⟨letter, known, -, hc⟩ | ⟨-, d₁, d₂, d₃, d₄, numeral, hc⟩ | ⟨-, -, low, hc⟩ :=
    writeChar_cases c
  · have letters : ∀ x ∈ ['"', '\\', 'b', 'f', 'n', 'r', 't'], 32 ≤ x.toNat := by simp
    rw [hc, List.mem_cons, List.mem_singleton] at h
    obtain rfl | rfl := h
    · decide
    · exact letters _ known
  · rw [hc, List.mem_cons, List.mem_cons] at h
    obtain rfl | rfl | h := h
    · decide
    · decide
    · exact numeral.le_code h
  · rw [hc, List.mem_singleton] at h
    rwa [h]

/-! ### Strings -/

/-- The characters of a string as they are written. -/
def spelled (s : String) : List Char := s.toList.flatMap writeChar

theorem writeString_append (s : String) (r : List Char) :
    writeString s ++ r = '"' :: (spelled s ++ '"' :: r) := by
  simp [writeString, spelled]

theorem scanString_spelled (s : String) (r : List Char) :
    scanString (spelled s ++ '"' :: r) = some (spelled s, r) := by
  rw [spelled]
  induction s.toList with
  | nil => rfl
  | cons c cs ih =>
    rw [List.flatMap_cons, List.append_assoc, scanString_writeChar, ih]
    rfl

theorem string?_spelled (s : String) : string? (spelled s) = some s := by
  have all (cs : List Char) : decodeString (cs.flatMap writeChar) = some cs := by
    induction cs with
    | nil => rfl
    | cons c cs ih => rw [List.flatMap_cons, decodeString_writeChar, ih, Option.map_some]
  rw [string?, spelled, all, Option.map_some, String.ofList_toList]

theorem le_of_mem_writeString {s : String} {c : Char} (h : c ∈ writeString s) : 32 ≤ c.toNat := by
  rw [← List.append_nil (writeString s), writeString_append, List.mem_cons, List.mem_append,
    List.mem_singleton, spelled, List.mem_flatMap] at h
  obtain rfl | ⟨d, -, h⟩ | rfl := h
  · decide
  · exact le_of_mem_writeChar h
  · decide

/-! ### Integers -/

/-- What follows a number does not continue it. -/
def EndsNumber (r : List Char) : Prop :=
  ∀ c ∈ r.head?, c.isDigit = false ∧ c ≠ '.' ∧ c ≠ 'e' ∧ c ≠ 'E'

section

variable {r digits : List Char} {n : Nat}

theorem EndsNumber.cons {c : Char} (digit : c.isDigit = false) (point : c ≠ '.') (lower : c ≠ 'e')
    (upper : c ≠ 'E') (r : List Char) : EndsNumber (c :: r) := by
  intro d hd
  obtain rfl : c = d := Option.some.inj hd
  exact ⟨digit, point, lower, upper⟩

theorem scanDigits_append (h : ∀ c ∈ digits, c.isDigit = true) (hne : digits ≠ [])
    (ends : EndsNumber r) : scanDigits (digits ++ r) = some (digits, r) := by
  have stops : r.takeWhile Char.isDigit = [] ∧ r.dropWhile Char.isDigit = r := by
    cases r with
    | nil => exact ⟨rfl, rfl⟩
    | cons c r =>
      have other := (ends c rfl).1
      exact ⟨List.takeWhile_cons_of_neg (by simp [other]),
        List.dropWhile_cons_of_neg (by simp [other])⟩
  rw [scanDigits, List.takeWhile_append_of_pos h, List.dropWhile_append_of_pos h, stops.1,
    stops.2, List.append_nil]
  simp [hne]

theorem scanWhole_decimal (n : Nat) (ends : EndsNumber r) :
    scanWhole ((Text.decimal n).toList ++ r) = some ((Text.decimal n).toList, r) := by
  by_cases zero : n = 0
  · subst zero
    rfl
  · have hne := Text.decimal_ne_nil n
    have head := Text.head?_decimal zero
    have scanned := scanDigits_append (fun _ mem => (Text.numeral_decimal n).isDigit mem) hne ends
    unfold scanWhole
    split
    · rename_i h
      obtain ⟨d, ds, hdigits⟩ := List.exists_cons_of_ne_nil hne
      rw [hdigits] at h head
      exact absurd (congrArg some (List.cons.inj h).1) head
    · exact scanned

theorem scanFraction_eq (ends : EndsNumber r) : scanFraction r = some ([], r) := by
  unfold scanFraction
  split
  · exact absurd rfl (ends '.' rfl).2.1
  · rfl

theorem scanExponent_eq (ends : EndsNumber r) : scanExponent r = some ([], r) := by
  unfold scanExponent
  split
  · rename_i c s
    obtain ⟨-, -, lower, upper⟩ := ends c rfl
    rw [if_neg (by simp [lower, upper])]
  · rfl

/-- Digits do not start with a sign. -/
theorem decimal_append_ne_minus (n : Nat) (r s : List Char) :
    (Text.decimal n).toList ++ r ≠ '-' :: s := by
  obtain ⟨d, ds, hdigits⟩ := List.exists_cons_of_ne_nil (Text.decimal_ne_nil n)
  have digit := (Text.numeral_decimal n).isDigit (hdigits ▸ List.mem_cons_self)
  intro h
  rw [hdigits] at h
  rw [(List.cons.inj h).1] at digit
  cases digit

/-- An integer starts with a digit or a minus sign. -/
theorem exists_decimalInt_eq_cons (n : Int) :
    ∃ c s, (Text.decimalInt n).toList = c :: s ∧ (c.isDigit = true ∨ c = '-') := by
  cases n with
  | ofNat n =>
    obtain ⟨d, ds, hdigits⟩ := List.exists_cons_of_ne_nil (Text.decimal_ne_nil n)
    exact ⟨d, ds, hdigits,
      .inl ((Text.numeral_decimal n).isDigit (hdigits ▸ List.mem_cons_self))⟩
  | negSucc n =>
    rw [Text.decimalInt, String.toList_append]
    exact ⟨'-', _, rfl, .inr rfl⟩

/-- A written integer is scanned as a whole. -/
theorem scanNumber_decimalInt (n : Int) (ends : EndsNumber r) :
    scanNumber ((Text.decimalInt n).toList ++ r) = some ((Text.decimalInt n).toList, r) := by
  cases n with
  | ofNat n =>
    have whole := scanWhole_decimal n ends
    rw [Text.decimalInt]
    unfold scanNumber
    split
    rename_i sign s hsign
    split at hsign
    · rename_i h
      exact absurd h (decimal_append_ne_minus n r _)
    · cases hsign
      simp [whole, scanFraction_eq ends, scanExponent_eq ends]
  | negSucc n =>
    have whole := scanWhole_decimal (n + 1) ends
    rw [Text.decimalInt, String.toList_append, List.append_assoc]
    change scanNumber ('-' :: ((Text.decimal (n + 1)).toList ++ r)) = _
    simp [scanNumber, whole, scanFraction_eq ends, scanExponent_eq ends]

/-- A written integer denotes the number if that fits in 64 bits. -/
theorem number?_decimalInt {n : Int} (h : Value.inRange n = true) :
    number? (Text.decimalInt n).toList = some (.int n) := by
  cases n with
  | ofNat n =>
    have value := (Text.numeral_decimal n).number? (Text.decimal_ne_nil n)
    have unsigned (s : List Char) : (Text.decimal n).toList ≠ '-' :: s := by
      simpa using decimal_append_ne_minus n [] s
    have integer : integer? (Text.decimal n).toList = some (n : Int) := by
      unfold integer?
      split
      · rename_i hs
        exact absurd hs (unsigned _)
      · rw [value]
        rfl
    rw [Text.decimalInt, number?, if_neg (unsigned _), integer]
    exact if_pos h
  | negSucc n =>
    have value := (Text.numeral_decimal (n + 1)).number? (Text.decimal_ne_nil (n + 1))
    have integer : integer? ('-' :: (Text.decimal (n + 1)).toList) = some (Int.negSucc n) := by
      rw [integer?, value]
      rfl
    have zero : '-' :: (Text.decimal (n + 1)).toList ≠ ['-', '0'] := by
      intro hz
      have head := Text.head?_decimal (Nat.succ_ne_zero n)
      rw [(List.cons.inj hz).2] at head
      exact head rfl
    have minus : ("-" ++ Text.decimal (n + 1)).toList = '-' :: (Text.decimal (n + 1)).toList := by
      rw [String.toList_append]
      rfl
    rw [Text.decimalInt, minus, number?, if_neg zero, integer]
    exact if_pos h

theorem le_of_mem_decimalInt {n : Int} {c : Char} (h : c ∈ (Text.decimalInt n).toList) :
    32 ≤ c.toNat := by
  cases n with
  | ofNat n => exact (Text.numeral_decimal n).le_code h
  | negSucc n =>
    rw [Text.decimalInt, String.toList_append, List.mem_append] at h
    obtain h | h := h
    · obtain rfl : c = '-' := by simpa using h
      decide
    · exact (Text.numeral_decimal (n + 1)).le_code h

end

end HouseRules.Json
