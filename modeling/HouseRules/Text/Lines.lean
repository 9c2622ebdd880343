import HouseRules.Text.Pieces

/-! The lines of a text. A line ends with a line feed, or with a carriage return and a line
feed; a final line feed opens no further line, and a carriage return on its own is an ordinary
character. -/

namespace HouseRules.Text

/-- A line without the carriage return that belongs to its line end. -/
def withoutReturn (line : List Char) : List Char :=
  if line.getLast? = some '\r' then line.dropLast else line

/-- The lines among the stretches between line feeds. Only a line that a line feed ends can
lose a carriage return. -/
def closeLines : List (List Char) → List (List Char)
  | [] => []
  | [last] => if last.isEmpty then [] else [last]
  | p :: q :: ps => withoutReturn p :: closeLines (q :: ps)

/-- The lines of a text, without their line ends. -/
def lines (s : List Char) : List (List Char) := closeLines (pieces '\n' s)

theorem mem_of_mem_withoutReturn {c : Char} {line : List Char} (h : c ∈ withoutReturn line) :
    c ∈ line := by
  unfold withoutReturn at h
  split at h
  · exact (List.dropLast_sublist line).mem h
  · exact h

/-- The characters of a line all come from one stretch between line feeds. -/
theorem exists_piece_of_mem_closeLines {line : List Char} {ps : List (List Char)}
    (h : line ∈ closeLines ps) : ∃ p ∈ ps, ∀ c ∈ line, c ∈ p := by
  fun_induction closeLines ps with
  | case1 => simp at h
  | case2 => simp at h
  | case3 last => exact ⟨last, by simp, by simp_all⟩
  | case4 p q ps ih =>
    rcases List.mem_cons.1 h with rfl | h
    · exact ⟨p, by simp, fun c hc => mem_of_mem_withoutReturn hc⟩
    · obtain ⟨r, hr, sub⟩ := ih h
      exact ⟨r, List.mem_cons_of_mem p hr, sub⟩

theorem lineFeed_not_mem_of_mem_lines {line s : List Char} (h : line ∈ lines s) :
    '\n' ∉ line := by
  obtain ⟨p, hp, sub⟩ := exists_piece_of_mem_closeLines h
  exact fun hn => sep_not_mem_of_mem_pieces hp (sub _ hn)

/-- The lines of a string as strings. -/
def linesOf (s : String) : List String := (lines s.toList).map String.ofList

end HouseRules.Text
