import HouseRules.Proofs.Text.ByteSize
import HouseRules.Rule.Listing
import Mathlib.Data.List.Forall2

/-! The layout of a listing. Columns are measured in bytes and filled up by characters; since a text
has at most as many characters as bytes, no id or ruleset is wider than its column, and the texts of
all rows start below one another. -/

namespace HouseRules.Listing

variable {s : String} {texts : List String} {rules : List Rule} {r : Rule}
  {width idWidth rulesetWidth : Nat}

/-! ### Columns -/

/-- The greatest number of bytes among texts, zero where there are none. -/
structure IsWidest (texts : List String) (width : Nat) : Prop where
  le : ∀ s ∈ texts, s.utf8ByteSize ≤ width
  attained : texts = [] ∧ width = 0 ∨ ∃ s ∈ texts, s.utf8ByteSize = width

/-- A number of spaces. -/
def spaces (n : Nat) : String := String.ofList (List.replicate n ' ')

/-- A text with spaces after it fills a column. -/
def Fills (width : Nat) (s column : String) : Prop :=
  column.length = width ∧ ∃ n, column = s ++ spaces n

@[simp] theorem length_spaces (n : Nat) : (spaces n).length = n := by
  simp [spaces]

theorem pad_eq (width : Nat) (s : String) : pad width s = s ++ spaces (width - s.length) := rfl

theorem fills_pad (h : s.length ≤ width) : Fills width s (pad width s) := by
  refine ⟨?_, _, pad_eq width s⟩
  rw [pad_eq, String.length_append, length_spaces]
  omega

theorem foldl_max_cases (ns : List Nat) (n : Nat) :
    n ≤ ns.foldl max n ∧ (∀ m ∈ ns, m ≤ ns.foldl max n) ∧
      (ns.foldl max n = n ∨ ns.foldl max n ∈ ns) := by
  induction ns generalizing n with
  | nil => exact ⟨Nat.le_refl n, fun _ mem => absurd mem List.not_mem_nil, .inl rfl⟩
  | cons m ns ih =>
    obtain ⟨start, rest, attained⟩ := ih (max n m)
    rw [List.foldl_cons]
    refine ⟨by omega, List.forall_mem_cons.2 ⟨by omega, rest⟩, ?_⟩
    obtain same | mem := attained
    · rw [same]
      obtain h | h := Nat.le_total n m
      · exact .inr (List.mem_cons.2 (.inl (Nat.max_eq_right h)))
      · exact .inl (Nat.max_eq_left h)
    · exact .inr (List.mem_cons_of_mem m mem)

theorem isWidest_widest (texts : List String) : IsWidest texts (widest texts) := by
  obtain ⟨-, le, attained⟩ := foldl_max_cases (texts.map String.utf8ByteSize) 0
  refine ⟨fun s mem => le _ (List.mem_map_of_mem mem), ?_⟩
  obtain zero | mem := attained
  · cases texts with
    | nil => exact .inl ⟨rfl, rfl⟩
    | cons s texts =>
      refine .inr ⟨s, List.mem_cons_self, ?_⟩
      have := le s.utf8ByteSize List.mem_cons_self
      rw [widest, zero]
      omega
  · exact .inr (List.mem_map.1 mem)

/-- A text is no wider than the widest column. -/
theorem IsWidest.length_le (h : IsWidest texts width) (mem : s ∈ texts) : s.length ≤ width :=
  Nat.le_trans (Text.length_le_utf8ByteSize s) (h.le s mem)

/-! ### Blocks -/

/-- What the rows of a rule show: the first line of the description, which is empty where there is
none, its further lines, and the location. -/
def shown (r : Rule) : List String :=
  (Text.linesOf r.description).headD "" :: (Text.linesOf r.description).drop 1 ++ [r.location]

/-- What stands before the text in the first row of a rule. -/
def IsHead (idWidth rulesetWidth : Nat) (r : Rule) (head : String) : Prop :=
  ∃ id ruleset state, Fills idWidth r.id id ∧ Fills rulesetWidth r.ruleset ruleset ∧
    Fills 8 (if r.excluded then "excluded" else "enabled") state ∧
    head = id ++ "  " ++ ruleset ++ "  " ++ state ++ "  "

/-- The rows of a rule. Each shows its text after as many characters as the columns take up; there
they stand in the first row, and the others have spaces. -/
structure IsBlock (idWidth rulesetWidth : Nat) (r : Rule) (rows : List String) : Prop where
  length_eq : rows.length = max 1 (Text.linesOf r.description).length + 1
  row : ∀ i text, (shown r)[i]? = some text → ∃ head, rows[i]? = some (head ++ text) ∧
    head.length = idWidth + rulesetWidth + 14 ∧
    if i = 0 then IsHead idWidth rulesetWidth r head else
      head = spaces (idWidth + rulesetWidth + 14)

theorem length_shown (r : Rule) :
    (shown r).length = max 1 (Text.linesOf r.description).length + 1 := by
  simp only [shown, List.length_append, List.length_cons, List.length_drop, List.length_nil]
  omega

theorem IsHead.length_eq {head : String} (h : IsHead idWidth rulesetWidth r head) :
    head.length = idWidth + rulesetWidth + 14 := by
  obtain ⟨id, ruleset, state, fillsId, fillsRuleset, fillsState, rfl⟩ := h
  simp only [String.length_append, fillsId.1, fillsRuleset.1, fillsState.1,
    show ("  " : String).length = 2 from rfl]
  omega

theorem exists_rows_eq (hid : r.id.length ≤ idWidth) (hruleset : r.ruleset.length ≤ rulesetWidth) :
    ∃ head, IsHead idWidth rulesetWidth r head ∧
      rows idWidth rulesetWidth r = (head ++ (Text.linesOf r.description).headD "") ::
        ((Text.linesOf r.description).drop 1 ++ [r.location]).map
          (spaces (idWidth + rulesetWidth + 14) ++ ·) := by
  have state : (if r.isEnabled then "enabled" else "excluded") =
      if r.excluded then "excluded" else "enabled" := by
    rw [Rule.isEnabled]
    cases r.excluded <;> rfl
  have stateFits : (if r.excluded then "excluded" else "enabled").length ≤ 8 := by
    split <;> decide
  refine ⟨_, ⟨_, _, _, fills_pad hid, fills_pad hruleset, fills_pad stateFits, rfl⟩, ?_⟩
  simp [rows, state, Rule.summary, pad_eq]

theorem isBlock_rows (hid : r.id.length ≤ idWidth) (hruleset : r.ruleset.length ≤ rulesetWidth) :
    IsBlock idWidth rulesetWidth r (rows idWidth rulesetWidth r) := by
  obtain ⟨head, isHead, rows_eq⟩ := exists_rows_eq hid hruleset
  rw [rows_eq]
  constructor
  · rw [← length_shown, shown]
    simp
  · intro i text found
    rw [shown, List.cons_append] at found
    cases i with
    | zero =>
      obtain rfl := Option.some.inj found
      exact ⟨head, rfl, isHead.length_eq, isHead⟩
    | succ i =>
      rw [List.getElem?_cons_succ] at found
      exact ⟨_, by rw [List.getElem?_cons_succ, List.getElem?_map, found]; rfl, length_spaces _, rfl⟩

/-! ### Counts -/

theorem countP_enabled_add (rules : List Rule) :
    rules.countP (!·.excluded) + rules.countP Rule.excluded = rules.length := by
  have := List.length_eq_countP_add_countP Rule.excluded (l := rules)
  simp only [Bool.not_eq_true, Bool.decide_eq_false] at this
  omega

/-! ### Listings -/

/-- A listing has a block for each rule in order and one row with the counts. The columns are as
wide as the widest id and ruleset in bytes, and hold every id and ruleset. -/
theorem text_layout (rules : List Rule) :
    ∃ (idWidth rulesetWidth : Nat) (blocks : List (List String)) (enabled excluded : Nat),
      IsWidest (rules.map Rule.id) idWidth ∧ IsWidest (rules.map Rule.ruleset) rulesetWidth ∧
      (∀ r ∈ rules, r.id.length ≤ idWidth ∧ r.ruleset.length ≤ rulesetWidth) ∧
      List.Forall₂ (IsBlock idWidth rulesetWidth) rules blocks ∧
      enabled = rules.countP (!·.excluded) ∧ excluded = rules.countP (·.excluded) ∧
      enabled + excluded = rules.length ∧
      text rules = String.join ((blocks.flatten ++
        [Text.decimal rules.length ++ " rule(s), " ++ Text.decimal enabled ++ " enabled, " ++
          Text.decimal excluded ++ " excluded"]).map (· ++ "\n")) := by
  have ids := isWidest_widest (rules.map Rule.id)
  have rulesets := isWidest_widest (rules.map Rule.ruleset)
  have fit : ∀ r ∈ rules, r.id.length ≤ widest (rules.map Rule.id) ∧
      r.ruleset.length ≤ widest (rules.map Rule.ruleset) := fun r mem =>
    ⟨ids.length_le (List.mem_map_of_mem mem), rulesets.length_le (List.mem_map_of_mem mem)⟩
  have total := countP_enabled_add rules
  refine ⟨_, _, rules.map (rows (widest (rules.map Rule.id)) (widest (rules.map Rule.ruleset))), _,
    _, ids, rulesets, fit, ?_, rfl, rfl, total, ?_⟩
  · rw [List.forall₂_map_right_iff, List.forall₂_same]
    exact fun r mem => isBlock_rows (fit r mem).1 (fit r mem).2
  · rw [text, allRows, counts, List.flatMap_def, ← total, Nat.add_sub_cancel]

end HouseRules.Listing
