/-! Cutting a text at a separator, putting the pieces together again, and fixed beginnings
and ends. -/

namespace HouseRules.Text

/-! ### Pieces -/

/-- The stretches between the occurrences of `sep`: one more than there are occurrences. -/
def pieces (sep : Char) : List Char → List (List Char)
  | [] => [[]]
  | c :: cs =>
    if c = sep then [] :: pieces sep cs
    else match pieces sep cs with
      | [] => [[c]]
      | p :: ps => (c :: p) :: ps

/-- The pieces with `sep` between each two of them. -/
def joinPieces (sep : Char) : List (List Char) → List Char
  | [] => []
  | [p] => p
  | p :: q :: ps => p ++ sep :: joinPieces sep (q :: ps)

theorem pieces_ne_nil (sep : Char) (s : List Char) : pieces sep s ≠ [] := by
  cases s with
  | nil => simp [pieces]
  | cons c cs =>
    simp only [pieces]
    split
    · simp
    · split <;> simp

theorem joinPieces_pieces (sep : Char) (s : List Char) : joinPieces sep (pieces sep s) = s := by
  induction s with
  | nil => rfl
  | cons c cs ih =>
    simp only [pieces]
    split
    · rename_i h
      cases hp : pieces sep cs with
      | nil => exact absurd hp (pieces_ne_nil sep cs)
      | cons p ps => rw [hp] at ih; simp [joinPieces, h, ih]
    · cases hp : pieces sep cs with
      | nil => exact absurd hp (pieces_ne_nil sep cs)
      | cons p ps =>
        rw [hp] at ih
        cases ps with
        | nil => simpa [joinPieces] using ih
        | cons q qs => simpa [joinPieces] using ih

theorem sep_not_mem_of_mem_pieces {sep : Char} {s p : List Char} (h : p ∈ pieces sep s) :
    sep ∉ p := by
  induction s generalizing p with
  | nil => simp_all [pieces]
  | cons c cs ih =>
    simp only [pieces] at h
    split at h
    · rcases List.mem_cons.1 h with rfl | h
      · exact List.not_mem_nil
      · exact ih h
    · rename_i hc
      cases hp : pieces sep cs with
      | nil => exact absurd hp (pieces_ne_nil sep cs)
      | cons q qs =>
        rw [hp] at h
        rcases List.mem_cons.1 h with rfl | h
        · have := ih (p := q) (by simp [hp])
          simp [Ne.symm hc, this]
        · exact ih (by simp [hp, h])

theorem pieces_of_not_mem {sep : Char} {s : List Char} (h : sep ∉ s) : pieces sep s = [s] := by
  induction s with
  | nil => rfl
  | cons c cs ih =>
    obtain ⟨hc, hcs⟩ := not_or.1 (mt List.mem_cons.2 h)
    rw [pieces, if_neg (Ne.symm hc), ih hcs]

theorem pieces_append_cons (sep : Char) (s t : List Char) :
    pieces sep (s ++ sep :: t) = pieces sep s ++ pieces sep t := by
  induction s with
  | nil => simp [pieces]
  | cons c cs ih =>
    rw [List.cons_append, pieces, pieces, ih]
    split
    · rfl
    · cases hp : pieces sep cs with
      | nil => exact absurd hp (pieces_ne_nil sep cs)
      | cons p ps => rfl

/-- The pieces of a string as strings. -/
def splitAt (sep : Char) (s : String) : List String := (pieces sep s.toList).map String.ofList

/-- Strings put together with `sep` between each two of them. -/
def joinWith (sep : String) : List String → String
  | [] => ""
  | s :: rest => rest.foldl (fun acc t => acc ++ sep ++ t) s

theorem foldl_joinWith (sep s a : String) (rest : List String) :
    rest.foldl (fun acc t => acc ++ sep ++ t) (s ++ a) =
      s ++ rest.foldl (fun acc t => acc ++ sep ++ t) a := by
  induction rest generalizing a with
  | nil => rfl
  | cons t rest ih =>
    rw [List.foldl_cons, List.foldl_cons, ← ih]
    simp only [String.append_assoc]

theorem joinWith_append_cons (sep s a : String) (rest : List String) :
    joinWith sep ((s ++ a) :: rest) = s ++ joinWith sep (a :: rest) :=
  foldl_joinWith sep s a rest

theorem joinWith_cons_cons (sep s a : String) (rest : List String) :
    joinWith sep (s :: a :: rest) = s ++ sep ++ joinWith sep (a :: rest) :=
  foldl_joinWith sep (s ++ sep) a rest

/-! ### Fixed beginnings and ends -/

/-- What follows `start` in a text that begins with it. -/
def afterStart? : List Char → List Char → Option (List Char)
  | [], s => some s
  | _ :: _, [] => none
  | p :: ps, c :: cs => if p = c then afterStart? ps cs else none

theorem afterStart?_append (p s : List Char) : afterStart? p (p ++ s) = some s := by
  induction p with
  | nil => rfl
  | cons c cs ih => simp [afterStart?, ih]

theorem eq_append_of_afterStart? {p s r : List Char} (h : afterStart? p s = some r) :
    s = p ++ r := by
  fun_induction afterStart? p s <;> simp_all

/-- What precedes `ending` in a text that ends with it. -/
def beforeEnd? (ending s : List Char) : Option (List Char) :=
  (afterStart? ending.reverse s.reverse).map List.reverse

theorem beforeEnd?_append (s e : List Char) : beforeEnd? e (s ++ e) = some s := by
  rw [beforeEnd?, List.reverse_append, afterStart?_append, Option.map_some, List.reverse_reverse]

/-- What follows `start` in a string that begins with it. -/
def dropStart? (start s : String) : Option String :=
  (afterStart? start.toList s.toList).map String.ofList

theorem dropStart?_eq_some_iff {start s after : String} :
    dropStart? start s = some after ↔ s = start ++ after := by
  rw [dropStart?, Option.map_eq_some_iff]
  constructor
  · rintro ⟨cs, hcs, rfl⟩
    have whole := eq_append_of_afterStart? hcs
    exact String.toList_inj.1 (by simpa using whole)
  · rintro rfl
    exact ⟨after.toList, by rw [String.toList_append, afterStart?_append], String.ofList_toList⟩

/-- What precedes `ending` in a string that ends with it. -/
def dropEnd? (ending s : String) : Option String :=
  (beforeEnd? ending.toList s.toList).map String.ofList

theorem eq_append_of_dropEnd? {ending s before : String} (h : dropEnd? ending s = some before) :
    s = before ++ ending := by
  rw [dropEnd?, Option.map_eq_some_iff] at h
  obtain ⟨cs, hcs, rfl⟩ := h
  rw [beforeEnd?, Option.map_eq_some_iff] at hcs
  obtain ⟨reversed, hreversed, rfl⟩ := hcs
  have whole := congrArg List.reverse (eq_append_of_afterStart? hreversed)
  rw [List.reverse_append, List.reverse_reverse, List.reverse_reverse] at whole
  exact String.toList_inj.1 (by simpa using whole)

/-- Whether `part` occurs in the text as a contiguous stretch. -/
def contains (part : List Char) : List Char → Bool
  | [] => part.isEmpty
  | c :: cs => (afterStart? part (c :: cs)).isSome || contains part cs

end HouseRules.Text
