import HouseRules.Rule.Basic

/-! The rules of one discovery run with an index of their ids. Ids may repeat; by its id a rule is
found as the last one that has it. -/

namespace HouseRules

/-! ### Positions by id -/

/-- Positions in a list by ids. Of two positions for an id the first counts. -/
abbrev Index := List (String × Nat)

namespace Index

def find? (index : Index) (id : String) : Option Nat :=
  (List.find? (fun x => x.1 = id) index).map Prod.snd

def ids (index : Index) : List String := index.map Prod.fst

/-- The index with a position for an id, in place of the one that it had. -/
def put (index : Index) (id : String) (position : Nat) : Index :=
  (id, position) :: index.filter fun x => x.1 ≠ id

@[simp] theorem find?_nil (id : String) : find? [] id = none := rfl

theorem find?_put (index : Index) (id other : String) (position : Nat) :
    (index.put id position).find? other =
      if id = other then some position else index.find? other := by
  split
  · rename_i same
    simp [find?, put, same]
  · rename_i differ
    have key (x : String × Nat) : (x.1 ≠ id ∧ x.1 = other) ↔ x.1 = other :=
      ⟨And.right, fun e => ⟨fun e' => differ (e'.symm.trans e), e⟩⟩
    simp [find?, put, differ, List.find?_filter, key]

/-- The index after rules were put into it one after another, the first of them with a position
and the others with the following ones. -/
def putAll (index : Index) (position : Nat) : List Rule → Index
  | [] => index
  | r :: rs => putAll (index.put r.id position) (position + 1) rs

/-- Positions stay below the next one. -/
theorem lt_of_find?_putAll {index : Index} {position i : Nat} {rules : List Rule} {id : String}
    (below : ∀ id i, index.find? id = some i → i < position)
    (h : (index.putAll position rules).find? id = some i) : i < position + rules.length := by
  induction rules generalizing index position with
  | nil => exact below id i h
  | cons r rs ih =>
    have next : i < position + 1 + rs.length := by
      refine ih (fun other j found => ?_) h
      rw [find?_put] at found
      split at found
      · obtain rfl := Option.some.inj found
        omega
      · have := below other j found
        omega
    rw [List.length_cons]
    omega

end Index

/-! ### Catalogs -/

/-- Rules in discovery order. -/
structure Catalog where
  rules : List Rule

namespace Catalog

def size (c : Catalog) : Nat := c.rules.length

def isEmpty (c : Catalog) : Bool := c.rules.isEmpty

/-- The rules that the filter left enabled, in discovery order. -/
def enabled (c : Catalog) : List Rule := c.rules.filter Rule.isEnabled

/-- The position that each id has last. -/
def index (c : Catalog) : Index := Index.putAll [] 0 c.rules

theorem lt_of_find?_index {c : Catalog} {id : String} {i : Nat}
    (h : c.index.find? id = some i) : i < c.rules.length := by
  simpa using Index.lt_of_find?_putAll (by simp) h

/-- The rule at the position of an id. -/
def get? (c : Catalog) (id : String) : Option Rule :=
  match h : c.index.find? id with
  | none => none
  | some i => some (c.rules.get ⟨i, lt_of_find?_index h⟩)

/-- The ids that more than one rule has, in increasing order. -/
def duplicateIds (c : Catalog) : List String :=
  (c.index.ids.filter fun id => 1 < c.rules.countP (·.id = id)).mergeSort (· ≤ ·)

end Catalog

end HouseRules
