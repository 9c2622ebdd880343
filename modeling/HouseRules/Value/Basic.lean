import HouseRules.Decimal.Binary64

/-! Values: what parameters, settings, metadata and arguments hold. The fields of an object are
sorted by name, and no name occurs twice. -/

namespace HouseRules

/-- A value of the settings tree or of a rule's parameter. -/
inductive Value where
  | null
  | bool (b : Bool)
  | int (n : Int)
  | float (x : Binary64)
  | string (s : String)
  | array (items : List Value)
  | object (fields : List (String × Value))
  deriving Inhabited

/-- Named values, sorted by name. -/
abbrev Fields := List (String × Value)

namespace Fields

/-- The value of a name. -/
def get? (name : String) : Fields → Option Value
  | [] => none
  | (n, v) :: rest => if n = name then some v else get? name rest

/-- The fields with one set: at its place in the order, or in place of the old value. -/
def insert (name : String) (value : Value) : Fields → Fields
  | [] => [(name, value)]
  | (n, v) :: rest =>
    if name = n then (name, value) :: rest
    else if name < n then (name, value) :: (n, v) :: rest
    else (n, v) :: insert name value rest

/-- The fields that pairs in any order give; of two with one name the later counts. -/
def ofList (pairs : List (String × Value)) : Fields :=
  pairs.foldl (fun fields (n, v) => insert n v fields) []

def names (fields : Fields) : List String := fields.map Prod.fst

def contains (name : String) (fields : Fields) : Bool := (get? name fields).isSome

@[simp] theorem get?_nil (name : String) : get? name [] = none := rfl

theorem get?_insert_self (name : String) (value : Value) (fields : Fields) :
    get? name (insert name value fields) = some value := by
  induction fields with
  | nil => simp [insert, get?]
  | cons f rest ih =>
    obtain ⟨n, v⟩ := f
    simp only [insert]
    split
    · simp [get?]
    · rename_i h
      split
      · simp [get?]
      · simp [get?, ih, Ne.symm h]

theorem get?_insert_of_ne {name other : String} (h : other ≠ name) (value : Value)
    (fields : Fields) : get? other (insert name value fields) = get? other fields := by
  induction fields with
  | nil => simp [insert, get?, Ne.symm h]
  | cons f rest ih =>
    obtain ⟨n, v⟩ := f
    simp only [insert]
    split
    · rename_i e; subst e; simp [get?, Ne.symm h]
    · split
      · simp [get?, Ne.symm h]
      · simp only [get?, ih]

end Fields

namespace Value

/-- The integers that a value can hold: those of 64 bits, signed or unsigned. -/
def inRange (n : Int) : Bool := -0x8000000000000000 ≤ n && n < 0x10000000000000000

/-- An integer as a value, if it can hold it. -/
def ofInt? (n : Int) : Option Value := if inRange n then some (.int n) else none

def string? : Value → Option String
  | .string s => some s
  | _ => none

end Value

end HouseRules
