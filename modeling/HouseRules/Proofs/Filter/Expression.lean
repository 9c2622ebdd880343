import HouseRules.Filter.Pattern

/-! Regular expressions, as far as patterns need them: reading their text and what they match.
The text of a pattern reads as its items in sequence after the start of the text, and the
expression is found in an id exactly when the pattern matches a beginning of it. -/

namespace HouseRules

/-- A regular expression: nothing, the start of the text, a character, any character but a line
feed, a repetition and a sequence. -/
inductive Expression where
  | empty
  | start
  | char (c : Char)
  | any
  | many (e : Expression)
  | seq (e f : Expression)
  deriving DecidableEq

namespace Expression

/-- What an expression matches in a text in which `before` precedes it. -/
inductive Accepts : Expression → List Char → List Char → Prop where
  | empty {before : List Char} : Accepts .empty before []
  | start : Accepts .start [] []
  | char {before : List Char} {c : Char} : Accepts (.char c) before [c]
  | any {before : List Char} {c : Char} (h : c ≠ '\n') : Accepts .any before [c]
  | manyNil {e : Expression} {before : List Char} : Accepts (.many e) before []
  | manyCons {e : Expression} {before v w : List Char} (h : Accepts e before v)
      (more : Accepts (.many e) (before ++ v) w) : Accepts (.many e) before (v ++ w)
  | seq {e f : Expression} {before v w : List Char} (first : Accepts e before v)
      (second : Accepts f (before ++ v) w) : Accepts (.seq e f) before (v ++ w)

/-- Whether the expression matches some stretch of the text. -/
def FoundIn (e : Expression) (text : List Char) : Prop :=
  ∃ before w rest, text = before ++ w ++ rest ∧ e.Accepts before w

/-- The expression that a text denotes, for texts of `^`, `.`, `.*`, escaped metacharacters and
other characters. -/
def read? : List Char → Option Expression
  | [] => some .empty
  | '\\' :: c :: s =>
    if c ∈ PatternItem.metacharacters then (read? s).map (.seq (.char c)) else none
  | '.' :: '*' :: s => (read? s).map (.seq (.many .any))
  | '.' :: s => (read? s).map (.seq .any)
  | '^' :: s => (read? s).map (.seq .start)
  | c :: s => if c ∈ PatternItem.metacharacters then none else (read? s).map (.seq (.char c))

/-- A character without a meaning in the syntax reads as itself. -/
theorem read?_plain {c : Char} (h : c ∉ PatternItem.metacharacters) (s : List Char) :
    read? (c :: s) = (read? s).map (.seq (.char c)) := by
  rw [read?, if_neg h]
  -- no case for a character of the syntax applies
  all_goals
    intros
    subst_vars
    exact h (by decide)

/-! ### Matching, case by case -/

theorem accepts_empty_iff {before w : List Char} : Accepts .empty before w ↔ w = [] := by
  constructor
  · rintro ⟨⟩; rfl
  · rintro rfl; exact .empty

theorem accepts_start_iff {before w : List Char} :
    Accepts .start before w ↔ before = [] ∧ w = [] := by
  constructor
  · rintro ⟨⟩; exact ⟨rfl, rfl⟩
  · rintro ⟨rfl, rfl⟩; exact .start

theorem accepts_char_iff {c : Char} {before w : List Char} :
    Accepts (.char c) before w ↔ w = [c] := by
  constructor
  · rintro ⟨⟩; rfl
  · rintro rfl; exact .char

theorem accepts_any_iff {before w : List Char} :
    Accepts .any before w ↔ ∃ c, c ≠ '\n' ∧ w = [c] := by
  constructor
  · rintro (_ | _ | _ | h); exact ⟨_, h, rfl⟩
  · rintro ⟨c, h, rfl⟩; exact .any h

theorem accepts_seq_iff {e f : Expression} {before w : List Char} :
    Accepts (.seq e f) before w ↔
      ∃ u v, w = u ++ v ∧ Accepts e before u ∧ Accepts f (before ++ u) v := by
  constructor
  · rintro (_ | _ | _ | _ | _ | _ | ⟨first, second⟩); exact ⟨_, _, rfl, first, second⟩
  · rintro ⟨u, v, rfl, first, second⟩; exact .seq first second

/-- Repeating `.` matches exactly the texts without a line feed. -/
theorem accepts_many_any_iff {before w : List Char} :
    Accepts (.many .any) before w ↔ '\n' ∉ w := by
  constructor
  · intro h
    generalize he : Expression.many .any = e at h
    induction h with
    | manyNil => simp
    | manyCons first _ _ ih =>
      cases he
      obtain ⟨c, hc, rfl⟩ := accepts_any_iff.1 first
      have := ih rfl
      simp [Ne.symm hc, this]
    | _ => cases he
  · intro h
    induction w generalizing before with
    | nil => exact .manyNil
    | cons c w ih =>
      rw [List.mem_cons, not_or] at h
      exact .manyCons (v := [c]) (.any (Ne.symm h.1)) (ih h.2)

/-- What follows the start of the text is found only at the start. -/
theorem foundIn_start_iff {e : Expression} {text : List Char} :
    FoundIn (.seq .start e) text ↔ ∃ w rest, text = w ++ rest ∧ e.Accepts [] w := by
  constructor
  · rintro ⟨before, w, rest, rfl, h⟩
    obtain ⟨u, v, rfl, first, second⟩ := accepts_seq_iff.1 h
    obtain ⟨rfl, rfl⟩ := accepts_start_iff.1 first
    exact ⟨v, rest, by simp, second⟩
  · rintro ⟨w, rest, rfl, h⟩
    exact ⟨[], w, rest, by simp, accepts_seq_iff.2 ⟨[], w, rfl, .start, h⟩⟩

end Expression

/-! ### The expression of a pattern -/

namespace PatternItem

/-- The expression of an item. -/
def expression : PatternItem → Expression
  | literal c => .char c
  | star => .many .any

end PatternItem

namespace Pattern

/-- The expression of the items of a pattern in sequence. -/
def body : Pattern → Expression
  | [] => .empty
  | i :: p => .seq i.expression (body p)

/-- The expression of a pattern. -/
def expression (p : Pattern) : Expression := .seq .start (body p)

/-- An escaped or plain character reads as itself, also when it is a metacharacter. -/
theorem read?_literal (c : Char) (s : List Char) :
    Expression.read? ((PatternItem.literal c).regex ++ s) =
      (Expression.read? s).map (.seq (.char c)) := by
  by_cases h : c ∈ PatternItem.metacharacters
  · simp [PatternItem.regex, h, Expression.read?]
  · have plain : (PatternItem.literal c).regex = [c] := by simp [PatternItem.regex, h]
    rw [plain, List.singleton_append, Expression.read?_plain h]

theorem read?_regex (p : Pattern) : Expression.read? p.regex.toList = some p.expression := by
  have body_read : Expression.read? (p.flatMap PatternItem.regex) = some p.body := by
    induction p with
    | nil => rfl
    | cons i p ih =>
      rw [List.flatMap_cons]
      cases i with
      | literal c => rw [read?_literal, ih]; rfl
      | star => simp [PatternItem.regex, Expression.read?, ih, body, PatternItem.expression]
  simp [regex, Expression.read?, body_read, expression]

/-! ### A pattern matches where its expression is found -/

@[simp] theorem matchesStart_nil (s : List Char) : matchesStart [] s = true := by
  simp [matchesStart]

theorem matchesStart_literal_iff {c : Char} {p : Pattern} {s : List Char} :
    matchesStart (.literal c :: p) s = true ↔ ∃ t, s = c :: t ∧ matchesStart p t = true := by
  cases s with
  | nil => simp [matchesStart]
  | cons d s =>
    simp only [matchesStart, Bool.and_eq_true, decide_eq_true_eq, List.cons.injEq]
    constructor
    · rintro ⟨rfl, h⟩; exact ⟨s, ⟨rfl, rfl⟩, h⟩
    · rintro ⟨t, ⟨rfl, rfl⟩, h⟩; exact ⟨rfl, h⟩

/-- A star leaves out a stretch without line feeds. -/
theorem matchesStart_star_iff {p : Pattern} {s : List Char} :
    matchesStart (.star :: p) s = true ↔
      ∃ w t, s = w ++ t ∧ '\n' ∉ w ∧ matchesStart p t = true := by
  induction s with
  | nil =>
    rw [matchesStart]
    constructor
    · intro h; exact ⟨[], [], rfl, by simp, h⟩
    · rintro ⟨w, t, hs, -, h⟩
      obtain ⟨-, rfl⟩ := List.append_eq_nil_iff.1 hs.symm
      exact h
  | cons c s ih =>
    rw [matchesStart, Bool.or_eq_true, Bool.and_eq_true, decide_eq_true_eq, ih]
    constructor
    · rintro (h | ⟨hc, w, t, rfl, hw, h⟩)
      · exact ⟨[], c :: s, rfl, by simp, h⟩
      · exact ⟨c :: w, t, rfl, by simp [Ne.symm hc, hw], h⟩
    · rintro ⟨w, t, hs, hw, h⟩
      cases w with
      | nil => left; rw [List.nil_append] at hs; rwa [hs]
      | cons d w =>
        obtain ⟨rfl, rfl⟩ := List.cons.inj hs
        rw [List.mem_cons, not_or] at hw
        exact Or.inr ⟨Ne.symm hw.1, w, t, rfl, hw.2, h⟩

theorem matchesStart_iff_accepts (p : Pattern) (before s : List Char) :
    matchesStart p s = true ↔ ∃ w rest, s = w ++ rest ∧ p.body.Accepts before w := by
  induction p generalizing before s with
  | nil =>
    simp only [matchesStart_nil, true_iff, body]
    exact ⟨[], s, rfl, .empty⟩
  | cons i p ih =>
    simp only [body, Expression.accepts_seq_iff]
    cases i with
    | literal c =>
      rw [matchesStart_literal_iff]
      simp only [PatternItem.expression, Expression.accepts_char_iff]
      constructor
      · rintro ⟨t, rfl, h⟩
        obtain ⟨w, rest, rfl, hw⟩ := (ih (before ++ [c]) t).1 h
        exact ⟨c :: w, rest, rfl, [c], w, rfl, rfl, hw⟩
      · rintro ⟨_, rest, rfl, _, w, rfl, rfl, hw⟩
        exact ⟨w ++ rest, rfl, (ih _ _).2 ⟨w, rest, rfl, hw⟩⟩
    | star =>
      rw [matchesStart_star_iff]
      simp only [PatternItem.expression, Expression.accepts_many_any_iff]
      constructor
      · rintro ⟨u, t, rfl, hu, h⟩
        obtain ⟨w, rest, rfl, hw⟩ := (ih (before ++ u) t).1 h
        exact ⟨u ++ w, rest, by simp, u, w, rfl, hu, hw⟩
      · rintro ⟨_, rest, rfl, u, w, rfl, hu, hw⟩
        exact ⟨u, w ++ rest, by simp, hu, (ih _ _).2 ⟨w, rest, rfl, hw⟩⟩

/-- A pattern matches an id when its expression is found in it. -/
theorem isMatch_iff_foundIn {p : Pattern} {s : List Char} :
    p.isMatch s = true ↔ p.expression.FoundIn s := by
  rw [isMatch_eq, expression, Expression.foundIn_start_iff, matchesStart_iff_accepts]

end Pattern

end HouseRules
