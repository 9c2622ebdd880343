import HouseRules.Proofs.Text.ByteOrder
import HouseRules.Rule.Catalog
import Mathlib.Data.List.Induction
import Mathlib.Data.List.Nodup
import Mathlib.Data.String.Basic

/-! Lookup by id in a catalog. The index has each id at the position of the last rule with it, so
that rule is found; the ids that occur more than once are listed in the order of their bytes. -/

namespace HouseRules

variable {rules rs : List Rule} {r : Rule} {id : String} {i : Nat} {index : Index}

/-! ### Last positions -/

/-- The last rule with an id stands at a position. -/
structure IsLastAt (rules : List Rule) (id : String) (i : Nat) : Prop where
  stands : ∃ r, rules[i]? = some r ∧ r.id = id
  last : ∀ j r, i < j → rules[j]? = some r → r.id ≠ id

theorem IsLastAt.lt (h : IsLastAt rules id i) : i < rules.length := by
  obtain ⟨r, found, -⟩ := h.stands
  exact (List.getElem?_eq_some_iff.1 found).1

theorem getElem?_concat_iff {r' : Rule} :
    (rules ++ [r])[i]? = some r' ↔ rules[i]? = some r' ∨ i = rules.length ∧ r = r' := by
  grind

/-- One more rule is the last one with its id, and changes nothing for the others. -/
theorem isLastAt_concat :
    IsLastAt (rules ++ [r]) id i ↔
      if r.id = id then i = rules.length else IsLastAt rules id i := by
  have inside {j : Nat} {r' : Rule} (h : rules[j]? = some r') : j < rules.length :=
    (List.getElem?_eq_some_iff.1 h).1
  split
  · rename_i same
    constructor
    · rintro ⟨⟨r', found, -⟩, last⟩
      obtain before | ⟨hi, -⟩ := getElem?_concat_iff.1 found
      · exact absurd same (last _ r (inside before) List.getElem?_concat_length)
      · exact hi
    · rintro rfl
      refine ⟨⟨r, List.getElem?_concat_length, same⟩, fun j r' later found => ?_⟩
      obtain before | ⟨hj, -⟩ := getElem?_concat_iff.1 found
      · exact absurd (inside before) (Nat.not_lt.2 later.le)
      · exact absurd hj later.ne'
  · rename_i differ
    constructor
    · rintro ⟨⟨r', found, same⟩, last⟩
      obtain before | ⟨-, rfl⟩ := getElem?_concat_iff.1 found
      · exact ⟨⟨r', before, same⟩, fun j r' later found =>
          last j r' later (getElem?_concat_iff.2 (.inl found))⟩
      · exact absurd same differ
    · rintro ⟨⟨r', found, same⟩, last⟩
      refine ⟨⟨r', getElem?_concat_iff.2 (.inl found), same⟩, fun j r' later found => ?_⟩
      obtain before | ⟨-, rfl⟩ := getElem?_concat_iff.1 found
      · exact last j r' later before
      · exact differ

/-! ### The index -/

/-- An index has the last positions of the ids of some rules, and each id once. -/
structure Index.Covers (index : Index) (rules : List Rule) : Prop where
  find?_iff : ∀ id i, index.find? id = some i ↔ IsLastAt rules id i
  nodup : index.ids.Nodup

namespace Index

theorem nodup_ids_put (h : index.ids.Nodup) (position : Nat) :
    (index.put id position).ids.Nodup := by
  rw [ids, put, List.map_cons, List.nodup_cons]
  refine ⟨?_, h.sublist (List.filter_sublist.map _)⟩
  simp

theorem covers_nil : Covers [] [] := by
  refine ⟨fun id i => ?_, List.nodup_nil⟩
  simp only [find?_nil, reduceCtorEq, false_iff]
  exact fun h => absurd h.lt (Nat.not_lt_zero i)

/-- Putting the next rule into the index keeps it right. -/
theorem Covers.put (h : index.Covers rules) (r : Rule) :
    (index.put r.id rules.length).Covers (rules ++ [r]) := by
  refine ⟨fun id i => ?_, nodup_ids_put h.nodup _⟩
  rw [find?_put, isLastAt_concat]
  split
  · simp [eq_comm]
  · exact h.find?_iff id i

theorem Covers.putAll (h : index.Covers rules) (rs : List Rule) :
    (index.putAll rules.length rs).Covers (rules ++ rs) := by
  induction rs generalizing index rules with
  | nil => rwa [List.append_nil]
  | cons r rs ih =>
    have next := ih (h.put r)
    rwa [List.length_append, List.length_singleton, List.append_assoc] at next

theorem mem_ids_iff : id ∈ index.ids ↔ ∃ i, index.find? id = some i := by
  rw [ids, List.mem_map]
  constructor
  · rintro ⟨x, mem, rfl⟩
    obtain ⟨y, found⟩ := Option.isSome_iff_exists.1
      (List.find?_isSome (p := fun y : String × Nat => y.1 = x.1).2 ⟨x, mem, by simp⟩)
    exact ⟨y.2, by rw [find?, found]; rfl⟩
  · rintro ⟨i, found⟩
    obtain ⟨x, hx, -⟩ := Option.map_eq_some_iff.1 found
    exact ⟨x, List.mem_of_find?_eq_some hx, by simpa using List.find?_some hx⟩

end Index

/-! ### Lookup -/

namespace Catalog

variable {c : Catalog}

theorem covers_index (c : Catalog) : c.index.Covers c.rules := Index.covers_nil.putAll c.rules

/-- Every id of a rule has a last position. -/
theorem mem_ids_index : id ∈ c.index.ids ↔ id ∈ c.rules.map Rule.id := by
  rw [Index.mem_ids_iff]
  simp only [c.covers_index.find?_iff]
  generalize c.rules = rules
  induction rules using List.reverseRecOn with
  | nil =>
    simp only [List.map_nil, List.not_mem_nil, iff_false, not_exists]
    exact fun i h => absurd h.lt (Nat.not_lt_zero i)
  | append_singleton rules r ih =>
    simp only [isLastAt_concat, List.map_append, List.map_singleton, List.mem_append,
      List.mem_singleton, ← ih]
    split
    · rename_i same
      simp [same]
    · rename_i differ
      simp [Ne.symm differ]

theorem get?_eq_some_iff : c.get? id = some r ↔ ∃ i, IsLastAt c.rules id i ∧ c.rules[i]? = some r := by
  simp only [← c.covers_index.find?_iff]
  rw [get?]
  split
  · rename_i none
    simp [none]
  · rename_i i found
    simp [found, List.getElem?_eq_getElem (lt_of_find?_index found)]

theorem get?_eq_none_iff : c.get? id = none ↔ id ∉ c.rules.map Rule.id := by
  rw [← mem_ids_index, Index.mem_ids_iff, get?]
  split
  · rename_i none
    simp [none]
  · rename_i i found
    simp [found]

/-- What stands at a last position comes before no other rule with that id. -/
theorem exists_isLastAt_iff :
    (∃ i, IsLastAt rules id i ∧ rules[i]? = some r) ↔
      ∃ before after, rules = before ++ r :: after ∧ r.id = id ∧ ∀ x ∈ after, x.id ≠ id := by
  constructor
  · rintro ⟨i, h, found⟩
    obtain ⟨inside, rfl⟩ := List.getElem?_eq_some_iff.1 found
    obtain ⟨r, found', same⟩ := h.stands
    obtain rfl := Option.some.inj (found.symm.trans found')
    refine ⟨rules.take i, rules.drop (i + 1), by simp, same, fun x mem => ?_⟩
    obtain ⟨j, hj⟩ := List.mem_iff_getElem?.1 mem
    rw [List.getElem?_drop] at hj
    exact h.last _ x (by omega) hj
  · rintro ⟨before, after, rfl, same, last⟩
    refine ⟨before.length, ⟨⟨r, by simp, same⟩, fun j x later found => ?_⟩, by simp⟩
    rw [List.getElem?_append_right (by omega)] at found
    obtain ⟨k, hk⟩ : ∃ k, j - before.length = k + 1 := ⟨j - before.length - 1, by omega⟩
    rw [hk, List.getElem?_cons_succ] at found
    exact last x (List.mem_of_getElem? found)

/-! ### Repeated ids -/

theorem mem_duplicateIds : id ∈ c.duplicateIds ↔ 2 ≤ (c.rules.map Rule.id).count id := by
  have counted : (c.rules.map Rule.id).count id = c.rules.countP (·.id = id) := by
    rw [List.count, List.countP_map]
    congr 1
  rw [duplicateIds, List.mem_mergeSort, List.mem_filter, mem_ids_index, counted,
    decide_eq_true_eq]
  refine ⟨And.right, fun twice => ⟨?_, twice⟩⟩
  rw [← List.count_pos_iff, counted]
  omega

theorem pairwise_duplicateIds (c : Catalog) :
    c.duplicateIds.Pairwise fun a b => Text.bytesOf a < Text.bytesOf b := by
  have sorted : c.duplicateIds.Pairwise (· ≤ ·) := by
    refine (List.pairwise_mergeSort ?_ ?_ _).imp of_decide_eq_true
    · intro a b d hab hbd
      exact decide_eq_true (le_trans (of_decide_eq_true hab) (of_decide_eq_true hbd))
    · intro a b
      simpa using le_total a b
  have nodup : c.duplicateIds.Nodup := by
    rw [duplicateIds, (List.mergeSort_perm _ _).nodup_iff]
    exact c.covers_index.nodup.filter _
  exact (sorted.and nodup).imp fun ⟨le, ne⟩ => Text.bytesOf_lt_of_lt (lt_of_le_of_ne le ne)

/-! ### The catalog as a whole -/

/-- Lookup agrees with the list: the index has the last positions of the ids and nothing else, an
id finds the last rule with it, the repeated ids come in the order of their bytes, and the enabled
rules are those of the list that are not excluded. -/
theorem lookup_agrees (rules : List Rule) :
    let c : Catalog := ⟨rules⟩
    c.rules = rules ∧
    (∀ id i, c.index.find? id = some i ↔ IsLastAt rules id i) ∧
    (c.index.ids.Nodup ∧ ∀ id, id ∈ c.index.ids ↔ id ∈ rules.map Rule.id) ∧
    (∀ id i, c.index.find? id = some i → i < rules.length) ∧
    (∀ id r, c.get? id = some r ↔
      ∃ before after, rules = before ++ r :: after ∧ r.id = id ∧ ∀ x ∈ after, x.id ≠ id) ∧
    (∀ id, c.get? id = none ↔ ∀ r ∈ rules, r.id ≠ id) ∧
    c.duplicateIds.Pairwise (fun a b => Text.bytesOf a < Text.bytesOf b) ∧
    (∀ id, id ∈ c.duplicateIds ↔ 2 ≤ (rules.map Rule.id).count id) ∧
    c.enabled.Sublist rules ∧ (∀ r ∈ c.enabled, r.excluded = false) ∧
      c.enabled.length = rules.countP (!·.excluded) := by
  intro c
  refine ⟨rfl, c.covers_index.find?_iff, ⟨c.covers_index.nodup, fun _ => mem_ids_index⟩,
    fun _ _ => lt_of_find?_index, fun id r => get?_eq_some_iff.trans exists_isLastAt_iff,
    fun id => ?_, c.pairwise_duplicateIds, fun _ => mem_duplicateIds, List.filter_sublist,
    fun r mem => ?_, List.countP_eq_length_filter.symm⟩
  · rw [get?_eq_none_iff]
    simp [c]
  · simpa [Rule.isEnabled] using (List.mem_filter.1 mem).2

end Catalog

end HouseRules
