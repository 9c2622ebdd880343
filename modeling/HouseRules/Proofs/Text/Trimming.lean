import HouseRules.Text.Blank
import Mathlib.Data.List.DropRight
import Mathlib.Data.List.TakeWhile

/-! What trimming leaves of a text: the one stretch without a blank at either end that has only
blanks around it. -/

namespace HouseRules.Text

/-- A text of blanks only. -/
def AllBlank (s : List Char) : Prop := ∀ c ∈ s, isBlank c = true

/-- A text with no blank at either end. -/
def IsBare (s : List Char) : Prop :=
  (∀ c ∈ s.head?, isBlank c = false) ∧ ∀ c ∈ s.getLast?, isBlank c = false

variable {s a b : List Char}

theorem trimEnd_append (h : AllBlank b) (s : List Char) : trimEnd (s ++ b) = trimEnd s := by
  rw [trimEnd, List.reverse_append,
    List.dropWhile_append_of_pos fun c hc => h c (List.mem_reverse.1 hc)]
  rfl

theorem trimEnd_of_isBare (h : IsBare s) : trimEnd s = s := by
  refine List.rdropWhile_eq_self_iff.2 fun hne => ?_
  rw [h.2 _ (List.getLast?_eq_some_getLast hne)]
  exact Bool.false_ne_true

/-- Blanks around a text are trimmed off, and nothing else is. -/
theorem trim_padded (ha : AllBlank a) (hs : IsBare s) (hb : AllBlank b) :
    trim (a ++ s ++ b) = s := by
  rw [trim, trimStart, List.append_assoc, List.dropWhile_append_of_pos ha]
  cases s with
  | nil =>
    rw [List.nil_append, List.dropWhile_eq_nil_iff.2 hb]
    rfl
  | cons c rest =>
    rw [List.cons_append, List.dropWhile_cons_of_neg (by simp [hs.1 c rfl]), ← List.cons_append,
      trimEnd_append hb, trimEnd_of_isBare hs]

/-- A text is what trimming leaves of it, with blanks around. -/
theorem exists_padding (s : List Char) :
    ∃ a b, s = a ++ trim s ++ b ∧ AllBlank a ∧ IsBare (trim s) ∧ AllBlank b := by
  have start : s.takeWhile isBlank ++ trimStart s = s := List.takeWhile_append_dropWhile
  have ending : trim s ++ (trimStart s).rtakeWhile isBlank = trimStart s :=
    List.rdropWhile_append_rtakeWhile
  refine ⟨s.takeWhile isBlank, (trimStart s).rtakeWhile isBlank, ?_,
    fun c hc => List.mem_takeWhile_imp hc, ⟨fun c hc => ?_, fun c hc => ?_⟩,
    fun c hc => List.mem_rtakeWhile_imp hc⟩
  · rw [List.append_assoc, ending, start]
  · have first : (trimStart s).head? = some c := by
      rw [← ending, List.head?_append, Option.mem_def.1 hc]
      rfl
    have := List.head?_dropWhile_not isBlank s
    rw [show s.dropWhile isBlank = trimStart s from rfl, first] at this
    simpa using this
  · have hne : trim s ≠ [] := fun none => by rw [none] at hc; cases hc
    have last := List.rdropWhile_last_not isBlank (trimStart s) hne
    rw [List.getLast?_eq_some_getLast hne] at hc
    cases hc
    exact eq_false_of_ne_true last

theorem isBare_trim (s : List Char) : IsBare (trim s) := by
  obtain ⟨-, -, -, -, bare, -⟩ := exists_padding s
  exact bare

theorem trim_of_isBare (h : IsBare s) : trim s = s := by
  have := trim_padded (a := []) (b := []) (by simp [AllBlank]) h (by simp [AllBlank])
  simpa using this

/-- More blanks around a text change nothing of what trimming leaves. -/
theorem trim_append (ha : AllBlank a) (s : List Char) (hb : AllBlank b) :
    trim (a ++ s ++ b) = trim s := by
  obtain ⟨before, after, whole, hbefore, bare, hafter⟩ := exists_padding s
  have := trim_padded (a := a ++ before) (b := after ++ b)
    (fun c hc => (List.mem_append.1 hc).elim (ha c) (hbefore c)) bare
    (fun c hc => (List.mem_append.1 hc).elim (hafter c) (hb c))
  rw [← this]
  nth_rewrite 1 [whole]
  simp only [List.append_assoc]

end HouseRules.Text
