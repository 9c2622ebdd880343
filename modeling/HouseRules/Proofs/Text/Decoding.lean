import HouseRules.Proofs.Text.ByteOrder
import HouseRules.Proofs.Text.Numeral

/-! Texts read back from their bytes. The first byte of a character announces how many follow, and
these complete its code. -/

namespace HouseRules.Text

variable {b n bits code used more : Nat} {rest : List UInt8}

/-! ### One character -/

/-- A continuation byte adds its six bits to the code. -/
theorem continueCode_cons (h : bits < 64) :
    continueCode code used (more + 1) (UInt8.ofNat (bits + 128) :: rest) =
      continueCode (code * 64 + bits) (used + 1) more rest := by
  have hb : (UInt8.ofNat (bits + 128)).toNat = bits + 128 :=
    UInt8.toNat_ofNat_of_lt (show bits + 128 < 256 by omega)
  rw [continueCode, hb, if_pos (by omega), Nat.add_sub_cancel]

/-- A second byte within the bounds that the first one announces is read with it. -/
theorem charAt_of_lead {low high : Nat} (hb : 128 ≤ b) (hb' : b < 256)
    (hlead : lead? b = some ⟨low, high, more, code⟩) (hbits : bits < 64)
    (hlow : low ≤ bits + 128) (hhigh : bits + 128 ≤ high) :
    charAt (UInt8.ofNat b) (UInt8.ofNat (bits + 128) :: rest) =
      ((continueCode (code * 64 + bits) 1 more rest).1.bind scalar?,
        (continueCode (code * 64 + bits) 1 more rest).2) := by
  have first : (UInt8.ofNat b).toNat = b := UInt8.toNat_ofNat_of_lt hb'
  have second : (UInt8.ofNat (bits + 128)).toNat = bits + 128 :=
    UInt8.toNat_ofNat_of_lt (show bits + 128 < 256 by omega)
  unfold charAt
  rw [first, if_neg (by omega), hlead]
  simp only [second, hlow, hhigh, and_self, if_true, Nat.add_sub_cancel]

theorem lead?_of_two (h : 2 ≤ n) (h' : n < 32) : lead? (n + 192) = some ⟨0x80, 0xBF, 0, n⟩ := by
  rw [lead?, if_pos (by omega), Nat.add_sub_cancel]

theorem lead?_of_three (h : n < 16) :
    ∃ low high, lead? (n + 224) = some ⟨low, high, 1, n⟩ ∧
      low ≤ (if n = 0 then 0xA0 else 0x80) ∧ (if n = 0xD then 0x9F else 0xBF) ≤ high := by
  rw [lead?, if_neg (by omega)]
  by_cases zero : n = 0
  · subst zero
    exact ⟨_, _, rfl, by decide, by decide⟩
  by_cases surrogates : n = 0xD
  · subst surrogates
    exact ⟨_, _, rfl, by decide, by decide⟩
  · rw [if_neg (by omega), if_neg (by omega), if_pos (by omega), Nat.add_sub_cancel]
    exact ⟨_, _, rfl, by rw [if_neg zero], by rw [if_neg surrogates]⟩

theorem lead?_of_four (h : n < 5) :
    ∃ low high, lead? (n + 240) = some ⟨low, high, 2, n⟩ ∧
      low ≤ (if n = 0 then 0x90 else 0x80) ∧ (if n = 4 then 0x8F else 0xBF) ≤ high := by
  rw [lead?, if_neg (by omega), if_neg (by omega), if_neg (by omega), if_neg (by omega)]
  by_cases zero : n = 0
  · subst zero
    exact ⟨_, _, rfl, by decide, by decide⟩
  by_cases last : n = 4
  · subst last
    exact ⟨_, _, rfl, by decide, by decide⟩
  · rw [if_neg (by omega), if_pos (by omega), Nat.add_sub_cancel]
    exact ⟨_, _, rfl, by rw [if_neg zero], by rw [if_neg last]⟩

theorem charAt_of_one (h : n ≤ 0x7f) : charAt (UInt8.ofNat n) rest = (scalar? n, 0) := by
  have first : (UInt8.ofNat n).toNat = n := UInt8.toNat_ofNat_of_lt (show n < 256 by omega)
  unfold charAt
  rw [first, if_pos (by omega)]

theorem charAt_of_two (h : 0x7f < n) (h' : n ≤ 0x7ff) :
    charAt (UInt8.ofNat (n / 64 % 32 + 192)) (UInt8.ofNat (n % 64 + 128) :: rest) =
      (scalar? n, 1) := by
  rw [charAt_of_lead (by omega) (by omega) (lead?_of_two (by omega) (by omega)) (by omega)
    (by omega) (by omega)]
  have whole : n / 64 % 32 * 64 + n % 64 = n := by omega
  simp only [continueCode, whole]
  rfl

theorem charAt_of_three (valid : n.isValidChar) (h : 0x7ff < n) (h' : n ≤ 0xffff) :
    charAt (UInt8.ofNat (n / 4096 % 16 + 224))
      (UInt8.ofNat (n / 64 % 64 + 128) :: UInt8.ofNat (n % 64 + 128) :: rest) =
        (scalar? n, 2) := by
  have valid : n < 0xd800 ∨ 0xdfff < n ∧ n < 0x110000 := valid
  obtain ⟨low, high, hlead, hlow, hhigh⟩ := lead?_of_three (n := n / 4096 % 16) (by omega)
  rw [charAt_of_lead (by omega) (by omega) hlead (by omega)
      (by split at hlow <;> omega) (by split at hhigh <;> omega),
    continueCode_cons (by omega)]
  have whole : (n / 4096 % 16 * 64 + n / 64 % 64) * 64 + n % 64 = n := by omega
  simp only [continueCode, whole]
  rfl

theorem charAt_of_four (h : 0xffff < n) (h' : n < 0x110000) :
    charAt (UInt8.ofNat (n / 262144 % 8 + 240)) (UInt8.ofNat (n / 4096 % 64 + 128) ::
      UInt8.ofNat (n / 64 % 64 + 128) :: UInt8.ofNat (n % 64 + 128) :: rest) =
        (scalar? n, 3) := by
  have big : n / 262144 % 8 = n / 262144 := by omega
  obtain ⟨low, high, hlead, hlow, hhigh⟩ := lead?_of_four (n := n / 262144) (by omega)
  rw [big, charAt_of_lead (by omega) (by omega) hlead (by omega)
      (by split at hlow <;> omega) (by split at hhigh <;> omega),
    continueCode_cons (by omega), continueCode_cons (by omega)]
  have whole : ((n / 262144 * 64 + n / 4096 % 64) * 64 + n / 64 % 64) * 64 + n % 64 = n := by
    omega
  simp only [continueCode, whole]
  rfl

/-- The bytes of a code, with any after them, are read as that code, each of them once. -/
theorem charAt_codeUnits (h : n.isValidChar) (rest : List UInt8) :
    ∃ u us, codeUnits n = u :: us ∧
      charAt (UInt8.ofNat u) (us.map UInt8.ofNat ++ rest) = (scalar? n, us.length) := by
  rw [codeUnits]
  split
  · rename_i one
    exact ⟨n, [], rfl, charAt_of_one one⟩
  split
  · rename_i one two
    exact ⟨_, _, rfl, charAt_of_two (Nat.lt_of_not_le one) two⟩
  split
  · rename_i one two three
    exact ⟨_, _, rfl, charAt_of_three h (Nat.lt_of_not_le two) three⟩
  · rename_i one two three
    have bound : n < 0x110000 := by
      obtain low | ⟨-, high⟩ := h
      · exact Nat.lt_trans low (by decide)
      · exact high
    exact ⟨_, _, rfl, charAt_of_four (Nat.lt_of_not_le three) bound⟩

/-! ### Texts -/

theorem charsFrom_length_append (bs rest : List UInt8) :
    charsFrom bs.length (bs ++ rest) = charsFrom 0 rest := by
  induction bs with
  | nil => rfl
  | cons b bs ih => rw [List.length_cons, List.cons_append, charsFrom, ih]

theorem charsFrom_utf8EncodeChar (c : Char) (rest : List UInt8) :
    charsFrom 0 (String.utf8EncodeChar c ++ rest) = some c :: charsFrom 0 rest := by
  obtain ⟨u, us, hunits, hchar⟩ := charAt_codeUnits c.valid rest
  rw [utf8EncodeChar_eq, hunits, List.map_cons, List.cons_append, charsFrom, hchar]
  simp only
  have same : us.length = (us.map UInt8.ofNat).length := (List.length_map _).symm
  rw [same, charsFrom_length_append]
  exact congrArg (· :: _) (scalar?_toNat c)

/-- The bytes of a text spell it. -/
theorem decode?_bytesOf (s : String) : decode? (bytesOf s) = some s := by
  have chars (cs : List Char) :
      charsFrom 0 (cs.flatMap String.utf8EncodeChar) = cs.map some := by
    induction cs with
    | nil => rfl
    | cons c cs ih => rw [List.flatMap_cons, charsFrom_utf8EncodeChar, ih, List.map_cons]
  have all (cs : List Char) : (cs.map some).mapM id = some cs := by
    induction cs with
    | nil => rfl
    | cons c cs ih => simp [ih]
  rw [decode?, bytesOf_eq, chars, all, Option.map_some, String.ofList_toList]

/-- No byte of a text is below a code that none of its characters is below, if that is the code
of an ASCII character. -/
theorem le_of_mem_bytesOf {s : String} {low : Nat} (hlow : low < 128)
    (h : ∀ c ∈ s.toList, low ≤ c.toNat) {b : UInt8} (hb : b ∈ bytesOf s) : low ≤ b.toNat := by
  rw [bytesOf_eq, List.mem_flatMap] at hb
  obtain ⟨c, hc, hb⟩ := hb
  rw [utf8EncodeChar_eq, List.mem_map] at hb
  obtain ⟨u, hu, rfl⟩ := hb
  have byte : (UInt8.ofNat u).toNat = u := UInt8.toNat_ofNat_of_lt (lt_of_mem_codeUnits hu)
  rw [byte]
  have code : low ≤ c.val.toNat := h c hc
  rw [codeUnits] at hu
  split at hu
  · rwa [List.mem_singleton.1 hu]
  · split at hu
    · simp only [List.mem_cons, List.not_mem_nil, or_false] at hu
      omega
    · split at hu <;>
      · simp only [List.mem_cons, List.not_mem_nil, or_false] at hu
        omega

end HouseRules.Text
