import HouseRules.Text.Digits
import Mathlib.Algebra.Group.Nat.Defs
import Mathlib.Data.List.Induction

/-! Numerals: digits in a base, in either letter case, and the number that they spell. -/

namespace HouseRules.Text

/-- The digit of a value below 16. -/
def IsDigit (c : Char) (d : Nat) : Prop :=
  "0123456789abcdef".toList[d]? = some c ∨ "0123456789ABCDEF".toList[d]? = some c

instance (c : Char) (d : Nat) : Decidable (IsDigit c d) := inferInstanceAs (Decidable (_ ∨ _))

/-- Digits in a base from 2 to 16 and their number. -/
inductive Numeral (base : Nat) : List Char → Nat → Prop where
  | nil : Numeral base [] 0
  | snoc {digits : List Char} {n d : Nat} {c : Char} (front : Numeral base digits n)
      (last : IsDigit c d) (lt : d < base) : Numeral base (digits ++ [c]) (n * base + d)

/-- A character has its code. -/
theorem scalar?_toNat (c : Char) : scalar? c.toNat = some c := by
  have valid : c.toNat.isValidChar := c.valid
  rw [scalar?, dif_pos valid]
  have same := Char.ofNat_toNat c
  rw [Char.ofNat, dif_pos valid] at same
  exact congrArg some same

theorem scalar?_eq_none {n : Nat} (h : ∀ c : Char, c.toNat ≠ n) : scalar? n = none := by
  have invalid : ¬n.isValidChar := fun valid => h (Char.ofNatAux n valid) rfl
  exact dif_neg invalid

/-- The codes before the surrogates are all codes of characters. -/
theorem exists_toNat_eq {n : Nat} (h : n < 0xD800) : ∃ c : Char, c.toNat = n :=
  ⟨Char.ofNatAux n (.inl h), rfl⟩

/-! ### Digits -/

namespace IsDigit

variable {c : Char} {d : Nat}

theorem lt (h : IsDigit c d) : d < 16 := by
  obtain h | h := h
  · exact (List.getElem?_eq_some_iff.1 h).1
  · exact (List.getElem?_eq_some_iff.1 h).1

theorem digitValue? (h : IsDigit c d) : Text.digitValue? c = some d := by
  have all : ∀ d < 16, ("0123456789abcdef".toList[d]?.bind Text.digitValue?) = some d ∧
      ("0123456789ABCDEF".toList[d]?.bind Text.digitValue?) = some d := by decide
  obtain ⟨lower, upper⟩ := all d h.lt
  obtain h | h := h
  · rwa [h] at lower
  · rwa [h] at upper

theorem digitIn? (h : IsDigit c d) {base : Nat} (lt : d < base) :
    Text.digitIn? base c = some d := by
  rw [Text.digitIn?, h.digitValue?]
  simp [lt]

theorem toLower (h : IsDigit c d) : IsDigit c.toLower d := by
  have all : ∀ d < 16,
      "0123456789abcdef".toList[d]?.map Char.toLower = "0123456789abcdef".toList[d]? ∧
      "0123456789ABCDEF".toList[d]?.map Char.toLower = "0123456789abcdef".toList[d]? := by decide
  obtain ⟨lower, upper⟩ := all d h.lt
  left
  obtain h | h := h
  · rw [← lower, h]
    rfl
  · rw [← upper, h]
    rfl

theorem of_digitValue? (h : Text.digitValue? c = some d) (lt : d < 16) : IsDigit c d := by
  have all : ∀ d < 16,
      (d < 10 → "0123456789abcdef".toList[d]? = some (Char.ofNat (48 + d))) ∧
      (10 ≤ d → "0123456789abcdef".toList[d]? = some (Char.ofNat (87 + d)) ∧
        "0123456789ABCDEF".toList[d]? = some (Char.ofNat (55 + d))) := by decide
  obtain ⟨decimal, letter⟩ := all d lt
  have code (n : Nat) (hn : c.toNat = n) : some (Char.ofNat n) = some c := by
    rw [← hn, Char.ofNat_toNat]
  rw [Text.digitValue?] at h
  split at h
  · rename_i bounds
    obtain ⟨low, high⟩ := bounds
    have low : 48 ≤ c.toNat := low
    have high : c.toNat ≤ 57 := high
    have value : c.toNat - 48 = d := Option.some.inj h
    exact .inl ((decimal (by omega)).trans (code _ (by omega)))
  split at h
  · rename_i bounds
    have low : 97 ≤ c.toNat := bounds.1
    have value : c.toNat - 97 + 10 = d := Option.some.inj h
    exact .inl ((letter (by omega)).1.trans (code _ (by omega)))
  split at h
  · rename_i bounds
    have low : 65 ≤ c.toNat := bounds.1
    have value : c.toNat - 65 + 10 = d := Option.some.inj h
    exact .inr ((letter (by omega)).2.trans (code _ (by omega)))
  · cases h

theorem isDigitIn_iff {base : Nat} (hbase : base ≤ 16) :
    Text.isDigitIn base c = true ↔ ∃ d < base, IsDigit c d := by
  constructor
  · intro h
    obtain ⟨d, hd⟩ := Option.isSome_iff_exists.1 h
    obtain ⟨value, lt⟩ := Option.filter_eq_some_iff.1 hd
    rw [decide_eq_true_eq] at lt
    exact ⟨d, lt, of_digitValue? value (by omega)⟩
  · rintro ⟨d, lt, digit⟩
    rw [Text.isDigitIn, digit.digitIn? lt]
    rfl

end IsDigit

/-! ### Numerals -/

namespace Numeral

variable {base n : Nat} {digits : List Char}

theorem exists_digit (h : Numeral base digits n) {c : Char} (mem : c ∈ digits) :
    ∃ d < base, IsDigit c d := by
  induction h with
  | nil => exact absurd mem List.not_mem_nil
  | @snoc digits n d last front digit lt ih =>
    obtain mem | mem := List.mem_append.1 mem
    · exact ih mem
    · exact ⟨d, lt, List.mem_singleton.1 mem ▸ digit⟩

theorem not_mem (h : Numeral base digits n) {c : Char} (other : ∀ d < base, ¬IsDigit c d) :
    c ∉ digits := by
  intro mem
  obtain ⟨d, lt, digit⟩ := h.exists_digit mem
  exact other d lt digit

theorem isDigitIn (h : Numeral base digits n) (hbase : base ≤ 16) {c : Char}
    (mem : c ∈ digits) : Text.isDigitIn base c = true :=
  (IsDigit.isDigitIn_iff hbase).2 (h.exists_digit mem)

theorem isDigit (h : Numeral 10 digits n) {c : Char} (mem : c ∈ digits) : c.isDigit = true := by
  have all : ∀ d < 10, ("0123456789abcdef".toList[d]?.all Char.isDigit) = true ∧
      ("0123456789ABCDEF".toList[d]?.all Char.isDigit) = true := by decide
  obtain ⟨d, lt, digit⟩ := h.exists_digit mem
  obtain ⟨lower, upper⟩ := all d lt
  obtain digit | digit := digit
  · rwa [digit] at lower
  · rwa [digit] at upper

/-- Digits are no control characters. -/
theorem le_code (h : Numeral base digits n) {c : Char} (mem : c ∈ digits) : 32 ≤ c.toNat := by
  have all : ∀ d < 16, ("0123456789abcdef".toList[d]?.all fun c : Char => 32 ≤ c.toNat) = true ∧
      ("0123456789ABCDEF".toList[d]?.all fun c : Char => 32 ≤ c.toNat) = true := by decide
  obtain ⟨d, -, digit⟩ := h.exists_digit mem
  obtain ⟨lower, upper⟩ := all d digit.lt
  obtain digit | digit := digit
  · rw [digit] at lower
    exact of_decide_eq_true lower
  · rw [digit] at upper
    exact of_decide_eq_true upper

theorem toLower (h : Numeral base digits n) : Numeral base (digits.map Char.toLower) n := by
  induction h with
  | nil => exact nil
  | snoc front last lt ih =>
    rw [List.map_append]
    exact snoc ih last.toLower lt

/-- Zeros before a numeral do not count. -/
theorem zeros_append (h : Numeral base digits n) (hbase : 0 < base) (zeros : Nat) :
    Numeral base (List.replicate zeros '0' ++ digits) n := by
  induction h with
  | nil =>
    rw [List.append_nil]
    induction zeros with
    | zero => exact nil
    | succ zeros ih =>
      have longer := ih.snoc (show IsDigit '0' 0 by decide) hbase
      rwa [← List.replicate_succ', Nat.zero_mul] at longer
  | snoc _ last lt ih =>
    rw [← List.append_assoc]
    exact ih.snoc last lt

/-- Reading a numeral gives its number. -/
theorem number? (h : Numeral base digits n) (hne : digits ≠ []) :
    Text.number? base digits = some n := by
  have fold : digits.foldlM (fun acc c => (Text.digitIn? base c).map (acc * base + ·)) 0 =
      some n := by
    clear hne
    induction h with
    | nil => rfl
    | snoc front last lt ih =>
      rw [List.foldlM_append, ih]
      simp [last.digitIn? lt]
  rw [Text.number?, if_neg (by simpa using hne), fold]

theorem of_foldlM (hbase : base ≤ 16)
    (h : digits.foldlM (fun acc c => (Text.digitIn? base c).map (acc * base + ·)) 0 = some n) :
    Numeral base digits n := by
  induction digits using List.reverseRecOn generalizing n with
  | nil =>
    cases h
    exact nil
  | append_singleton digits c ih =>
    rw [List.foldlM_append] at h
    obtain ⟨m, front, last⟩ := Option.bind_eq_some_iff.1 h
    obtain ⟨d, digit, rfl⟩ : ∃ d, Text.digitIn? base c = some d ∧ m * base + d = n := by
      simpa using last
    obtain ⟨value, lt⟩ := Option.filter_eq_some_iff.1 digit
    rw [decide_eq_true_eq] at lt
    exact snoc (ih front) (IsDigit.of_digitValue? value (by omega)) lt

theorem lt_pow (h : Numeral base digits n) : n < base ^ digits.length := by
  induction h with
  | nil => exact Nat.one_pos
  | @snoc digits n d c front last lt ih =>
    rw [List.length_append, List.length_singleton, Nat.pow_succ]
    calc n * base + d < n * base + base := Nat.add_lt_add_left lt _
      _ = (n + 1) * base := (Nat.succ_mul n base).symm
      _ ≤ base ^ digits.length * base := Nat.mul_le_mul_right base ih

/-- Digits are a numeral of some number. -/
theorem exists_numeral (hbase : base ≤ 16) (h : ∀ c ∈ digits, Text.isDigitIn base c = true) :
    ∃ n, Numeral base digits n := by
  induction digits using List.reverseRecOn with
  | nil => exact ⟨0, nil⟩
  | append_singleton digits c ih =>
    obtain ⟨n, front⟩ := ih fun d mem => h d (List.mem_append_left _ mem)
    obtain ⟨d, lt, last⟩ := (IsDigit.isDigitIn_iff hbase).1 (h c (by simp))
    exact ⟨_, front.snoc last lt⟩

/-- The digits at the start of a text, as many as there are up to a limit, and what follows. -/
theorem exists_append (hbase : base ≤ 16) (width : Nat) (s : List Char) :
    ∃ digits rest n, s = digits ++ rest ∧ Numeral base digits n ∧
      (digits.length = width ∨
        (digits.length < width ∧ ∀ c ∈ rest.head?, ∀ d < base, ¬IsDigit c d)) := by
  have leading : ∃ digits rest, s = digits ++ rest ∧
      (∀ c ∈ digits, Text.isDigitIn base c = true) ∧ (digits.length = width ∨
        (digits.length < width ∧ ∀ c ∈ rest.head?, ∀ d < base, ¬IsDigit c d)) := by
    induction width generalizing s with
    | zero => exact ⟨[], s, rfl, by simp, .inl rfl⟩
    | succ width ih =>
      cases s with
      | nil => exact ⟨[], [], rfl, by simp, .inr ⟨Nat.succ_pos width, by simp⟩⟩
      | cons c s =>
        by_cases digit : Text.isDigitIn base c = true
        · obtain ⟨digits, rest, rfl, inside, ends⟩ := ih s
          refine ⟨c :: digits, rest, rfl, by simpa using ⟨digit, inside⟩, ?_⟩
          simpa using ends
        · refine ⟨[], c :: s, rfl, by simp, .inr ⟨Nat.succ_pos width, ?_⟩⟩
          rintro _ ⟨⟩ d lt isDigit
          exact digit ((IsDigit.isDigitIn_iff hbase).2 ⟨d, lt, isDigit⟩)
  obtain ⟨digits, rest, hs, inside, ends⟩ := leading
  obtain ⟨n, numeral⟩ := exists_numeral hbase inside
  exact ⟨digits, rest, n, hs, numeral, ends⟩

/-- Exactly the numerals can be read. -/
theorem number?_iff (hbase : base ≤ 16) :
    Text.number? base digits = some n ↔ digits ≠ [] ∧ Numeral base digits n := by
  constructor
  · intro h
    rw [Text.number?] at h
    split at h
    · cases h
    · rename_i hne
      exact ⟨by simpa using hne, of_foldlM hbase h⟩
  · rintro ⟨hne, numeral⟩
    exact numeral.number? hne

end Numeral

/-! ### Written numbers -/

/-- Hexadecimal digits of a fixed number are those of the number if it has no more. -/
theorem numeral_hexDigits {width n : Nat} (h : n < 16 ^ width) :
    Numeral 16 (hexDigits width n) n := by
  have digit : ∀ d < 16, IsDigit (hexDigit d) d := by decide
  induction width generalizing n with
  | zero =>
    obtain rfl : n = 0 := by simpa using h
    exact .nil
  | succ width ih =>
    have front := ih (n := n / 16) (Nat.div_lt_of_lt_mul (by rwa [Nat.pow_succ'] at h))
    have lt := Nat.mod_lt n (show 16 > 0 by decide)
    have snoc := front.snoc (digit _ lt) lt
    rwa [show n / 16 * 16 + n % 16 = n by omega] at snoc

/-- The decimal digits of a number are a numeral of it. -/
theorem numeral_decimal (n : Nat) : Numeral 10 (decimal n).toList n := by
  have digit : ∀ d < 10, IsDigit (Nat.digitChar d) d := by decide
  rw [decimal, Nat.toString_eq_ofList_toDigits, String.toList_ofList]
  induction n using Nat.strongRecOn with
  | _ n ih =>
    by_cases small : n < 10
    · rw [Nat.toDigits_of_lt_base small]
      have one := Numeral.nil.snoc (digit n small) small
      simpa using one
    · rw [Nat.toDigits_of_base_le (by decide) (Nat.not_lt.1 small)]
      have lt := Nat.mod_lt n (show 10 > 0 by decide)
      have snoc := (ih (n / 10) (by omega)).snoc (digit _ lt) lt
      rwa [show n / 10 * 10 + n % 10 = n by omega] at snoc

theorem decimal_ne_nil (n : Nat) : (decimal n).toList ≠ [] := by
  rw [decimal, Nat.toString_eq_ofList_toDigits, String.toList_ofList]
  exact Nat.toDigits_ne_nil

/-- Only the number zero is written with a zero first. -/
theorem head?_decimal {n : Nat} (h : n ≠ 0) : (decimal n).toList.head? ≠ some '0' := by
  have digit : ∀ d < 10, d ≠ 0 → Nat.digitChar d ≠ '0' := by decide
  rw [decimal, Nat.toString_eq_ofList_toDigits, String.toList_ofList]
  induction n using Nat.strongRecOn with
  | _ n ih =>
    by_cases small : n < 10
    · rw [Nat.toDigits_of_lt_base small]
      simpa using digit n small h
    · rw [Nat.toDigits_of_base_le (by decide) (Nat.not_lt.1 small),
        List.head?_append, Option.or_of_isSome (by simp [Nat.toDigits_ne_nil])]
      exact ih (n / 10) (by omega) (by omega)

end HouseRules.Text
