/-! How many bytes texts have in UTF-8, compared with their characters. -/

namespace HouseRules.Text

/-- The codes before `0x800` have one byte or two. -/
theorem utf8Size_le_two {c : Char} (h : c.toNat < 0x800) : c.utf8Size ≤ 2 := by
  have code : c.val.toNat < 0x800 := h
  rw [Char.utf8Size]
  split
  · decide
  split
  · decide
  · rename_i large
    rw [UInt32.le_iff_toNat_le] at large
    exact absurd (Nat.le_of_lt_succ code) large

theorem utf8ByteSize_ofList_cons (c : Char) (cs : List Char) :
    (String.ofList (c :: cs)).utf8ByteSize = c.utf8Size + (String.ofList cs).utf8ByteSize := by
  rw [String.ofList_cons, String.utf8ByteSize_append, String.utf8ByteSize_singleton]

theorem utf8ByteSize_ofList {cs : List Char} (h : ∀ c ∈ cs, c.utf8Size = 1) :
    (String.ofList cs).utf8ByteSize = cs.length := by
  induction cs with
  | nil => rfl
  | cons c cs ih =>
    rw [utf8ByteSize_ofList_cons, h c List.mem_cons_self,
      ih fun d hd => h d (List.mem_cons_of_mem c hd), List.length_cons, Nat.add_comm]

theorem length_le_utf8ByteSize_ofList (cs : List Char) :
    cs.length ≤ (String.ofList cs).utf8ByteSize := by
  induction cs with
  | nil => exact Nat.zero_le _
  | cons c cs ih =>
    have := c.utf8Size_pos
    rw [utf8ByteSize_ofList_cons, List.length_cons]
    omega

/-- A text has at most as many characters as bytes. -/
theorem length_le_utf8ByteSize (s : String) : s.length ≤ s.utf8ByteSize := by
  have := length_le_utf8ByteSize_ofList s.toList
  rwa [String.ofList_toList, String.length_toList] at this

end HouseRules.Text
