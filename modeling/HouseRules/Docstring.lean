import HouseRules.Text.Blank
import HouseRules.Text.Lines

/-! What the docstring of a rule declares: the key on its `:key` line, and a description made
of the lines that are no directives. -/

namespace HouseRules

/-- The key and the description in a docstring. -/
structure RuleDoc where
  key : String
  description : String
  deriving DecidableEq

namespace RuleDoc

/-- The identifier on a trimmed `:key` line. A longer word, as in `:keywords`, is another
directive. -/
def keyOf? (line : List Char) : Option (List Char) :=
  match Text.afterStart? ":key".toList line with
  | some [] => some []
  | some (c :: rest) => if Text.isBlank c then some (Text.trim (c :: rest)) else none
  | none => none

theorem mem_of_mem_keyOf? {line key : List Char} (h : keyOf? line = some key) {c : Char}
    (hc : c ∈ key) : c ∈ line := by
  unfold keyOf? at h
  split at h
  · simp_all
  · rename_i d rest hr
    split at h
    · obtain rfl := Option.some.inj h
      rw [Text.eq_append_of_afterStart? hr]
      exact List.mem_append_right _ (Text.mem_of_mem_trim hc)
    · exact absurd h (by simp)
  · exact absurd h (by simp)

/-- Whether a trimmed line belongs to the description. -/
def isDescriptive (line : List Char) : Bool := !line.isEmpty && line.head? ≠ some ':'

/-- The lines of a docstring without blanks at either end. -/
def trimmedLines (text : String) : List (List Char) := (Text.lines text.toList).map Text.trim

/-- What a docstring declares. The first `:key` line counts, and it must name a key. -/
def parse? (text : String) : Option RuleDoc :=
  let lines := trimmedLines text
  match lines.findSome? keyOf? with
  | none => none
  | some [] => none
  | some key =>
    some ⟨String.ofList key,
      String.ofList (Text.joinPieces '\n' (lines.filter isDescriptive))⟩

/-- The key in a docstring is on one line of it. -/
theorem exists_line_of_parse? {text : String} {doc : RuleDoc} (h : parse? text = some doc) :
    ∃ line ∈ trimmedLines text, keyOf? line = some doc.key.toList ∧ doc.key.toList ≠ [] := by
  unfold parse? at h
  simp only at h
  split at h
  · exact absurd h (by simp)
  · exact absurd h (by simp)
  · rename_i key hne hkey
    obtain rfl := Option.some.inj h
    obtain ⟨line, hl, hk⟩ := List.exists_of_findSome?_eq_some hkey
    exact ⟨line, hl, by simpa using hk, by simpa using hne⟩

theorem lineFeed_not_mem_key {text : String} {doc : RuleDoc} (h : parse? text = some doc) :
    '\n' ∉ doc.key.toList := by
  obtain ⟨line, hl, hk, -⟩ := exists_line_of_parse? h
  obtain ⟨raw, hr, rfl⟩ := List.mem_map.1 hl
  intro hn
  exact Text.lineFeed_not_mem_of_mem_lines hr (Text.mem_of_mem_trim (mem_of_mem_keyOf? hk hn))

end RuleDoc

end HouseRules
