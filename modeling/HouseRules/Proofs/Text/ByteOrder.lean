import HouseRules.Text.Utf8
import Mathlib.Data.String.Basic
import Mathlib.Order.Basic

/-! The order of strings is that of their bytes in UTF-8: the bytes of a smaller character come
before those of a greater one whatever follows, and no character has fewer bytes than a smaller
one. -/

namespace HouseRules.Text

/-! ### Bytes of a string -/

theorem toList_loop (bs : ByteArray) (i : Nat) (r : List UInt8) :
    ByteArray.toList.loop bs i r = r.reverse ++ bs.data.toList.drop i := by
  fun_induction ByteArray.toList.loop bs i r with
  | case1 i r hi ih =>
    have hlen : i < bs.data.toList.length := by simpa using hi
    rw [ih, List.drop_eq_getElem_cons hlen, List.reverse_cons, List.append_assoc]
    have head : bs.get! i = bs.data.toList[i] := by
      rw [Array.getElem_toList]
      exact getElem!_pos bs.data i hi
    rw [head]
    rfl
  | case2 i r hi =>
    have hlen : bs.data.toList.length ≤ i := by simpa using hi
    rw [List.drop_of_length_le hlen, List.append_nil]

theorem bytesOf_eq (s : String) : bytesOf s = s.toList.flatMap String.utf8EncodeChar := by
  rw [bytesOf, ByteArray.toList, toList_loop]
  have hs : s.toUTF8 = (s.toList.flatMap String.utf8EncodeChar).toByteArray := by
    rw [String.toUTF8, ← String.ofList_toList (s := s), String.toByteArray_ofList,
      String.toList_ofList]
    rfl
  rw [hs, List.toList_data_toByteArray]
  rfl

/-! ### Bytes of a character -/

/-- The numbers of one list come before those of the other at the first place where they differ,
and there is one. -/
def Precedes : List Nat → List Nat → Prop
  | a :: as, b :: bs => a < b ∨ a = b ∧ Precedes as bs
  | _, _ => False

theorem Precedes.append_lt {as bs : List Nat} (h : Precedes as bs) (hbs : ∀ b ∈ bs, b < 256)
    (rest rest' : List UInt8) : as.map UInt8.ofNat ++ rest < bs.map UInt8.ofNat ++ rest' := by
  induction as generalizing bs with
  | nil => exact absurd h (by simp [Precedes])
  | cons a as ih =>
    cases bs with
    | nil => exact absurd h (by simp [Precedes])
    | cons b bs =>
      rw [List.forall_mem_cons] at hbs
      rw [List.map_cons, List.map_cons, List.cons_append, List.cons_append,
        List.cons_lt_cons_iff]
      rcases h with h | ⟨rfl, h⟩
      · exact .inl ((UInt8.ofNat_lt_iff_lt (Nat.lt_trans h hbs.1) hbs.1).2 h)
      · exact .inr ⟨rfl, ih h hbs.2⟩

/-- The bytes of a character as numbers. -/
def codeUnits (v : Nat) : List Nat :=
  if v ≤ 0x7f then [v]
  else if v ≤ 0x7ff then [v / 64 % 32 + 192, v % 64 + 128]
  else if v ≤ 0xffff then [v / 4096 % 16 + 224, v / 64 % 64 + 128, v % 64 + 128]
  else [v / 262144 % 8 + 240, v / 4096 % 64 + 128, v / 64 % 64 + 128, v % 64 + 128]

theorem utf8EncodeChar_eq (c : Char) :
    String.utf8EncodeChar c = (codeUnits c.val.toNat).map UInt8.ofNat := by
  rw [String.utf8EncodeChar, codeUnits]
  split
  · rfl
  · split
    · rfl
    · split <;> rfl

theorem lt_of_mem_codeUnits {v b : Nat} (h : b ∈ codeUnits v) : b < 256 := by
  rw [codeUnits] at h
  split at h
  · simp only [List.mem_singleton] at h
    omega
  · split at h
    · simp only [List.mem_cons, List.not_mem_nil, or_false] at h
      omega
    · split at h <;>
      · simp only [List.mem_cons, List.not_mem_nil, or_false] at h
        omega

theorem Precedes.append {as bs : List Nat} (h : Precedes as bs) (cs ds : List Nat) :
    Precedes (as ++ cs) (bs ++ ds) := by
  induction as generalizing bs with
  | nil => exact absurd h (by simp [Precedes])
  | cons a as ih =>
    cases bs with
    | nil => exact absurd h (by simp [Precedes])
    | cons b bs => exact h.imp_right fun ⟨same, h⟩ => ⟨same, ih h⟩

theorem Precedes.append_left {cs ds : List Nat} (as : List Nat) (h : Precedes cs ds) :
    Precedes (as ++ cs) (as ++ ds) := by
  induction as with
  | nil => exact h
  | cons a as ih => exact .inr ⟨rfl, ih⟩

/-- Of two numbers the last six bits count where the bits before them are the same. -/
theorem Precedes.append_six {v w : Nat} {as bs : List Nat} (h : v < w)
    (front : v / 64 < w / 64 → Precedes as bs) (same : v / 64 = w / 64 → as = bs) :
    Precedes (as ++ [v % 64 + 128]) (bs ++ [w % 64 + 128]) := by
  have parts : v / 64 < w / 64 ∨ v / 64 = w / 64 ∧ v % 64 < w % 64 := by omega
  obtain less | ⟨equal, less⟩ := parts
  · exact (front less).append _ _
  · rw [same equal]
    exact .append_left bs (.inl (Nat.add_lt_add_right less 128))

/-- The bytes of the smaller one of two codes of two bytes come first; so it is with three and
four. -/
theorem precedes_two {v w : Nat} (h : v < w) (hw : w ≤ 0x7ff) :
    Precedes ([v / 64 % 32 + 192] ++ [v % 64 + 128]) ([w / 64 % 32 + 192] ++ [w % 64 + 128]) := by
  refine .append_six h (fun less => .inl ?_) (fun equal => by rw [equal])
  omega

theorem precedes_three {v w : Nat} (h : v < w) (hw : w ≤ 0xffff) :
    Precedes ([v / 4096 % 16 + 224] ++ [v / 64 % 64 + 128] ++ [v % 64 + 128])
      ([w / 4096 % 16 + 224] ++ [w / 64 % 64 + 128] ++ [w % 64 + 128]) := by
  have high (n : Nat) : n / 4096 = n / 64 / 64 := by rw [Nat.div_div_eq_div_mul]
  rw [high, high]
  refine .append_six h (fun less => .append_six less (fun less => .inl ?_) ?_) ?_
  · omega
  · intro equal
    rw [equal]
  · intro equal
    rw [equal]

theorem precedes_four {v w : Nat} (h : v < w) (hw : w < 0x110000) :
    Precedes ([v / 262144 % 8 + 240] ++ [v / 4096 % 64 + 128] ++ [v / 64 % 64 + 128] ++
        [v % 64 + 128])
      ([w / 262144 % 8 + 240] ++ [w / 4096 % 64 + 128] ++ [w / 64 % 64 + 128] ++
        [w % 64 + 128]) := by
  have high (n : Nat) : n / 4096 = n / 64 / 64 := by rw [Nat.div_div_eq_div_mul]
  have higher (n : Nat) : n / 262144 = n / 64 / 64 / 64 := by
    rw [Nat.div_div_eq_div_mul, Nat.div_div_eq_div_mul]
  rw [high, high, higher, higher]
  refine .append_six h (fun less => .append_six less (fun less => .append_six less
    (fun less => .inl ?_) ?_) ?_) ?_
  · omega
  all_goals
    intro equal
    rw [equal]

theorem codeUnits_precedes {v w : Nat} (h : v < w) (hw : w < 0x110000) :
    Precedes (codeUnits v) (codeUnits w) := by
  -- a longer code has a greater first byte, codes of one length are compared group by group
  rw [codeUnits, codeUnits]
  split
  · split
    · exact .inl h
    split
    · exact .inl (by omega)
    split <;> exact .inl (by omega)
  rw [if_neg (show ¬w ≤ 0x7f by omega)]
  split
  · split
    · rename_i small
      exact precedes_two h small
    split <;> exact .inl (by omega)
  rw [if_neg (show ¬w ≤ 0x7ff by omega)]
  split
  · split
    · rename_i small
      exact precedes_three h small
    · exact .inl (by omega)
  rw [if_neg (show ¬w ≤ 0xffff by omega)]
  exact precedes_four h hw

/-- The bytes of a smaller character come first, whatever follows. -/
theorem utf8EncodeChar_append_lt {c d : Char} (h : c < d) (rest rest' : List UInt8) :
    String.utf8EncodeChar c ++ rest < String.utf8EncodeChar d ++ rest' := by
  have hd : d.val.toNat < 0x110000 := by
    rcases d.valid with hd | ⟨-, hd⟩
    · exact Nat.lt_trans hd (by decide)
    · exact hd
  rw [utf8EncodeChar_eq, utf8EncodeChar_eq]
  exact (codeUnits_precedes h hd).append_lt (fun b hb => lt_of_mem_codeUnits hb) rest rest'

/-! ### Order of strings -/

theorem flatMap_utf8EncodeChar_lt {s t : List Char} (h : s < t) :
    s.flatMap String.utf8EncodeChar < t.flatMap String.utf8EncodeChar := by
  induction s generalizing t with
  | nil =>
    cases t with
    | nil => exact absurd h (List.lt_irrefl _)
    | cons d t =>
      rw [List.flatMap_nil, List.flatMap_cons]
      rcases hd : String.utf8EncodeChar d with _ | ⟨b, bs⟩
      · exact absurd (String.length_utf8EncodeChar d) (by simp [hd, (Char.utf8Size_pos d).ne])
      · exact List.nil_lt_cons _ _
  | cons c s ih =>
    cases t with
    | nil => exact absurd h (List.not_lt_nil _)
    | cons d t =>
      rw [List.flatMap_cons, List.flatMap_cons]
      rcases List.cons_lt_cons_iff.1 h with hcd | ⟨rfl, hst⟩
      · exact utf8EncodeChar_append_lt hcd _ _
      · exact List.append_left_lt (ih hst)

theorem bytesOf_lt_of_lt {s t : String} (h : s < t) : bytesOf s < bytesOf t := by
  rw [bytesOf_eq, bytesOf_eq]
  exact flatMap_utf8EncodeChar_lt (String.lt_iff_toList_lt.1 h)

theorem bytesOf_injective {s t : String} (h : bytesOf s = bytesOf t) : s = t := by
  rcases lt_trichotomy s t with hst | hst | hst
  · exact absurd (h ▸ bytesOf_lt_of_lt hst) (List.lt_irrefl _)
  · exact hst
  · exact absurd (h ▸ bytesOf_lt_of_lt hst) (List.lt_irrefl _)

end HouseRules.Text
