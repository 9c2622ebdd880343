/-! Patterns for rule ids. A star stands for any characters but line feeds, every other
character for itself, and a pattern matches an id when it matches a beginning of it. -/

namespace HouseRules

/-- One item of a pattern. -/
inductive PatternItem where
  | literal (c : Char)
  | star
  deriving DecidableEq

/-- A pattern is the sequence of its items. -/
abbrev Pattern := List PatternItem

namespace PatternItem

def ofChar (c : Char) : PatternItem := if c = '*' then .star else .literal c

/-- The characters with a meaning in regular expressions. -/
def metacharacters : List Char :=
  ['\\', '.', '+', '*', '?', '(', ')', '|', '[', ']', '\x7b', '\x7d', '^', '$', '#', '&', '-', '~']

/-- The regular expression of an item. -/
def regex : PatternItem → List Char
  | star => ['.', '*']
  | literal c => if c ∈ metacharacters then ['\\', c] else [c]

end PatternItem

namespace Pattern

def ofString (s : String) : Pattern := s.toList.map PatternItem.ofChar

/-- The regular expression that a pattern stands for, bound to the start of the text. -/
def regex (p : Pattern) : String := String.ofList ('^' :: p.flatMap PatternItem.regex)

/-- How many stars a pattern has. -/
def stars (p : Pattern) : Nat := p.countP (· = .star)

/-! ### Matching -/

/-- Whether the pattern matches a beginning of the text. -/
def matchesStart : Pattern → List Char → Bool
  | [], _ => true
  | .literal _ :: _, [] => false
  | .literal x :: p, c :: s => x = c && matchesStart p s
  | .star :: p, [] => matchesStart p []
  | .star :: p, c :: s => matchesStart p (c :: s) || (c ≠ '\n' && matchesStart (.star :: p) s)
termination_by p s => p.length + s.length

/-- Which ends of a pattern match the empty text, the whole pattern first. -/
def rowAtEnd : Pattern → List Bool
  | [] => [true]
  | .literal _ :: p => false :: rowAtEnd p
  | .star :: p => (rowAtEnd p).headD false :: rowAtEnd p

/-- Which ends of a pattern match a text, from the same for the text without its first
character. -/
def rowBefore (c : Char) : Pattern → List Bool → List Bool
  | [], _ => [true]
  | .literal x :: p, old =>
    let later := old.drop 1
    (x = c && later.headD false) :: rowBefore c p later
  | .star :: p, old =>
    let row := rowBefore c p (old.drop 1)
    (row.headD false || (c ≠ '\n' && old.headD false)) :: row

/-- Which ends of a pattern match the text, the whole pattern first. -/
def row (p : Pattern) : List Char → List Bool
  | [] => rowAtEnd p
  | c :: s => rowBefore c p (row p s)

/-- Whether the pattern matches a beginning of the text, in time proportional to the product of
their lengths. -/
def isMatch (p : Pattern) (s : List Char) : Bool := (row p s).headD false

/-- The ends of a pattern, the whole pattern first and the empty one last. -/
def ends : Pattern → List Pattern
  | [] => [[]]
  | i :: p => (i :: p) :: ends p

@[simp] theorem head?_ends (p : Pattern) : (ends p).head? = some p := by
  cases p <;> rfl

theorem rowAtEnd_eq (p : Pattern) : rowAtEnd p = (ends p).map (matchesStart · []) := by
  induction p with
  | nil => simp [rowAtEnd, ends, matchesStart]
  | cons i p ih =>
    cases i with
    | literal x => simp [rowAtEnd, ends, matchesStart, ih]
    | star => simp [rowAtEnd, ends, matchesStart, ih]

theorem rowBefore_eq (c : Char) (p : Pattern) (s : List Char) :
    rowBefore c p ((ends p).map (matchesStart · s)) = (ends p).map (matchesStart · (c :: s)) := by
  induction p with
  | nil => simp [rowBefore, ends, matchesStart]
  | cons i p ih =>
    cases i with
    | literal x =>
      simp [rowBefore, ends, matchesStart, ih]
    | star =>
      simp [rowBefore, ends, matchesStart, ih]

theorem row_eq (p : Pattern) (s : List Char) : row p s = (ends p).map (matchesStart · s) := by
  induction s with
  | nil => exact rowAtEnd_eq p
  | cons c s ih => rw [row, ih, rowBefore_eq]

theorem isMatch_eq (p : Pattern) (s : List Char) : isMatch p s = matchesStart p s := by
  simp [isMatch, row_eq]

end Pattern

end HouseRules
