import HouseRules.Config.Load
import HouseRules.Proofs.Value.Paths

/-! The settings in variables of the environment. Where no variable stands in the way of another,
they make up a tree that has each value at its nested key and nothing else but the tables above. -/

namespace HouseRules

namespace Assignment

/-! ### Values -/

theorem word_isOrdered (s : List Char) : (word s).IsOrdered := by
  rw [word]
  split
  · exact .float _
  split
  · exact .int _
  split
  · exact .int _
  · exact .string _

/-- Values, items and members that are read with some bound are ordered. -/
structure ReadsOrdered (fuel : Nat) : Prop where
  value : ∀ {s v r}, value fuel s = some (v, r) → v.IsOrdered
  items : ∀ {s vs r}, items fuel s = some (vs, r) → ∀ v ∈ vs, v.IsOrdered
  members : ∀ {fields s after r}, Value.IsOrdered (.object fields) →
    members fuel fields s = some (after, r) → Value.IsOrdered (.object after)

section

variable {fuel : Nat} {s r : List Char}

theorem readsOrdered_zero : ReadsOrdered 0 where
  value h := by rw [Assignment.value] at h; cases h
  items h := by rw [Assignment.items] at h; cases h
  members _ h := by rw [Assignment.members] at h; cases h

theorem value_of_readsOrdered (ih : ReadsOrdered fuel) {v : Value}
    (h : value (fuel + 1) s = some (v, r)) : v.IsOrdered := by
  rw [value] at h
  obtain ⟨⟨w, rest⟩, found, same⟩ := Option.map_eq_some_iff.1 h
  cases same
  split at found
  · cases found
    exact .bool true
  · cases found
    exact .bool false
  · obtain ⟨⟨fields, rest⟩, read, same⟩ := Option.map_eq_some_iff.1 found
    cases same
    exact ih.members (.object List.Pairwise.nil nofun) read
  · obtain ⟨⟨vs, rest⟩, read, same⟩ := Option.map_eq_some_iff.1 found
    cases same
    exact .array (ih.items read)
  · obtain ⟨⟨text, rest⟩, -, same⟩ := Option.map_eq_some_iff.1 found
    cases same
    exact .string _
  · cases found
    exact .string _
  · cases found
  · cases found
    exact word_isOrdered _

theorem items_of_readsOrdered (ih : ReadsOrdered fuel) {vs : List Value}
    (h : items (fuel + 1) s = some (vs, r)) : ∀ v ∈ vs, v.IsOrdered := by
  rw [items.eq_def] at h
  simp only at h
  split at h
  · cases h
    exact nofun
  · obtain ⟨⟨v, rest⟩, read, h⟩ := Option.bind_eq_some_iff.1 h
    simp only at h
    split at h
    · obtain ⟨⟨more, rest⟩, later, same⟩ := Option.map_eq_some_iff.1 h
      cases same
      exact List.forall_mem_cons.2 ⟨ih.value read, ih.items later⟩
    · cases h
      exact List.forall_mem_singleton.2 (ih.value read)
    · cases h

theorem members_of_readsOrdered (ih : ReadsOrdered fuel) {fields after : Fields}
    (before : Value.IsOrdered (.object fields))
    (h : members (fuel + 1) fields s = some (after, r)) : Value.IsOrdered (.object after) := by
  rw [members.eq_def] at h
  simp only at h
  split at h
  · cases h
    exact before
  · obtain ⟨⟨k, rest⟩, -, h⟩ := Option.bind_eq_some_iff.1 h
    simp only at h
    split at h
    · obtain ⟨⟨v, rest⟩, read, h⟩ := Option.bind_eq_some_iff.1 h
      have added := before.insert (k := k) (ih.value read)
      simp only at h
      split at h
      · exact ih.members added h
      · cases h
        exact added
      · cases h
    · cases h

theorem readsOrdered (fuel : Nat) : ReadsOrdered fuel := by
  induction fuel with
  | zero => exact readsOrdered_zero
  | succ fuel ih =>
    exact ⟨value_of_readsOrdered ih, items_of_readsOrdered ih, members_of_readsOrdered ih⟩

theorem read_isOrdered (text : String) : (read text).IsOrdered := by
  rw [read]
  split
  · rename_i v found
    exact (readsOrdered _).value found
  · exact .string _

end

/-! ### Nested keys -/

section

variable {ks p rest : List String} {v u : Value}

theorem nested_isOrdered (ks : List String) (h : v.IsOrdered) : (nested ks v).IsOrdered := by
  induction ks with
  | nil => exact h
  | cons k ks ih =>
    exact .object (List.pairwise_singleton _ _) (List.forall_mem_singleton.2 ih)

theorem atPath?_nested_append (ks rest : List String) (v : Value) :
    (nested ks v).atPath? (ks ++ rest) = v.atPath? rest := by
  induction ks with
  | nil => rfl
  | cons k ks ih =>
    rw [nested, List.cons_append, Value.atPath?, Fields.get?, if_pos rfl]
    exact ih

/-- Below nested keys there are the tables on the way and what the value has. -/
theorem atPath?_nested_eq_some (h : (nested ks v).atPath? p = some u) :
    (p <+: ks ∧ p ≠ ks ∧ u.isTable = true) ∨ ∃ rest, p = ks ++ rest ∧ v.atPath? rest = some u := by
  induction ks generalizing p with
  | nil => exact .inr ⟨p, rfl, h⟩
  | cons k ks ih =>
    cases p with
    | nil =>
      cases h
      exact .inl ⟨List.nil_prefix, nofun, rfl⟩
    | cons n p =>
      rw [nested, Value.atPath?, Fields.get?] at h
      by_cases same : k = n
      · subst same
        rw [if_pos rfl] at h
        obtain ⟨shorter, ne, table⟩ | ⟨rest, rfl, there⟩ := ih h
        · exact .inl ⟨List.cons_prefix_cons.2 ⟨rfl, shorter⟩, fun e => ne (List.cons.inj e).2,
            table⟩
        · exact .inr ⟨rest, rfl, there⟩
      · rw [if_neg same] at h
        cases h

theorem isTable_nested (h : ks ≠ []) : (nested ks v).isTable = true := by
  cases ks with
  | nil => exact absurd rfl h
  | cons k ks => rfl

theorem hasTable_nested (h : p <+: ks) (ne : p ≠ ks) :
    Value.Holds (·.isTable = true) p (nested ks v) := by
  obtain ⟨rest, rfl⟩ := h
  have longer : rest ≠ [] := by
    rintro rfl
    exact ne (List.append_nil p).symm
  induction p with
  | nil => exact ⟨_, rfl, isTable_nested longer⟩
  | cons k p ih =>
    obtain ⟨u, there, table⟩ := ih fun same => ne (congrArg (k :: ·) same)
    refine ⟨u, ?_, table⟩
    rw [List.cons_append, nested, Value.atPath?, Fields.get?, if_pos rfl]
    exact there

theorem isTable_of_atPath?_nested (h : (nested ks v).atPath? p = some u) (short : ¬ks <+: p) :
    u.isTable = true := by
  obtain ⟨-, -, table⟩ | ⟨rest, rfl, -⟩ := atPath?_nested_eq_some h
  · exact table
  · exact absurd (List.prefix_append ks rest) short

end

/-! ### Several variables -/

/-- No key is the beginning of another. -/
def Compatible (xs : List (List String × Value)) : Prop :=
  xs.Pairwise fun x y => ¬x.1 <+: y.1 ∧ ¬y.1 <+: x.1

/-- Values at their nested keys, merged into one tree. -/
def tree (xs : List (List String × Value)) : Value :=
  (xs.map fun x => nested x.1 x.2).foldl Value.merge (.object [])

section

variable {ks p rest : List String} {x y : List String × Value} {v : Value}
  {xs : List (List String × Value)}

/-- A value is out of the way of every path to or into another, if their keys are compatible. -/
theorem silent_nested (apart : ¬x.1 <+: y.1 ∧ ¬y.1 <+: x.1) (rest : List String) :
    (nested y.1 y.2).Silent (x.1 ++ rest) := by
  have away {q : List String} (hq : q <+: x.1 ++ rest) : ¬y.1 <+: q := fun h =>
    (List.prefix_or_prefix_of_prefix (h.trans hq) (List.prefix_append x.1 rest)).elim
      apart.2 apart.1
  refine ⟨?_, fun q hq u hu => isTable_of_atPath?_nested hu (away hq)⟩
  cases found : (nested y.1 y.2).atPath? (x.1 ++ rest) with
  | none => rfl
  | some u =>
    obtain ⟨shorter, -, -⟩ | ⟨more, longer, -⟩ := atPath?_nested_eq_some found
    · exact absurd ((List.prefix_append x.1 rest).trans shorter) apart.1
    · exact absurd (longer ▸ List.prefix_append y.1 more) (away List.prefix_rfl)

theorem exists_split (compatible : Compatible xs) (mem : x ∈ xs) :
    ∃ before after, xs = before ++ x :: after ∧ ∀ y ∈ after, ¬x.1 <+: y.1 ∧ ¬y.1 <+: x.1 := by
  obtain ⟨before, after, rfl⟩ := List.append_of_mem mem
  have later := (List.pairwise_append.1 compatible).2.1
  exact ⟨before, after, rfl, (List.pairwise_cons.1 later).1⟩

theorem isOrdered_of_mem_nested {l : Value} (ordered : ∀ x ∈ xs, x.2.IsOrdered)
    (mem : l ∈ xs.map fun x => nested x.1 x.2) : l.IsOrdered := by
  obtain ⟨x, inside, rfl⟩ := List.mem_map.1 mem
  exact nested_isOrdered x.1 (ordered x inside)

/-- The tree of compatible variables has, other than tables, what each value has below its key. -/
theorem atPath?_tree_iff (compatible : Compatible xs) (ordered : ∀ x ∈ xs, x.2.IsOrdered)
    (leaf : v.isTable = false) :
    (tree xs).atPath? p = some v ↔
      ∃ x ∈ xs, ∃ rest, p = x.1 ++ rest ∧ x.2.atPath? rest = some v := by
  rw [tree, Value.atPath?_foldl_merge_iff _ (fun _ => isOrdered_of_mem_nested ordered) leaf]
  constructor
  · rintro ⟨before, l, after, split, found, -⟩
    have listed : l ∈ .object [] :: xs.map fun x => nested x.1 x.2 :=
      split ▸ List.mem_append_right _ List.mem_cons_self
    obtain rfl | mem := List.mem_cons.1 listed
    · cases p with
      | nil =>
        cases found
        cases leaf
      | cons k p => cases found
    · obtain ⟨x, inside, rfl⟩ := List.mem_map.1 mem
      obtain ⟨-, -, table⟩ | ⟨rest, rfl, there⟩ := atPath?_nested_eq_some found
      · rw [leaf] at table
        cases table
      · exact ⟨x, inside, rest, rfl, there⟩
  · rintro ⟨x, inside, rest, rfl, there⟩
    obtain ⟨before, after, rfl, apart⟩ := exists_split compatible inside
    refine ⟨.object [] :: before.map fun x => nested x.1 x.2, nested x.1 x.2,
      after.map fun x => nested x.1 x.2, by simp, ?_, fun l mem => ?_⟩
    · rwa [atPath?_nested_append]
    · obtain ⟨y, later, rfl⟩ := List.mem_map.1 mem
      exact silent_nested (apart y later) rest

/-- The tree of compatible variables has a table at its root, above each key, and where a value
has one below its key. -/
theorem hasTable_tree_iff (compatible : Compatible xs) (ordered : ∀ x ∈ xs, x.2.IsOrdered)
    (named : ∀ x ∈ xs, x.1 ≠ []) :
    Value.Holds (·.isTable = true) p (tree xs) ↔
      p = [] ∨ ∃ x ∈ xs, (p <+: x.1 ∧ p ≠ x.1) ∨
        ∃ rest, p = x.1 ++ rest ∧ Value.Holds (·.isTable = true) rest x.2 := by
  rw [tree, Value.hasTable_foldl_merge_iff _ fun _ => isOrdered_of_mem_nested ordered]
  constructor
  · rintro ⟨before, l, after, split, ⟨u, found, table⟩, -⟩
    have listed : l ∈ .object [] :: xs.map fun x => nested x.1 x.2 :=
      split ▸ List.mem_append_right _ List.mem_cons_self
    obtain rfl | mem := List.mem_cons.1 listed
    · cases p with
      | nil => exact .inl rfl
      | cons k p => cases found
    · obtain ⟨x, inside, rfl⟩ := List.mem_map.1 mem
      obtain ⟨shorter, ne, -⟩ | ⟨rest, rfl, there⟩ := atPath?_nested_eq_some found
      · exact .inr ⟨x, inside, .inl ⟨shorter, ne⟩⟩
      · exact .inr ⟨x, inside, .inr ⟨rest, rfl, u, there, table⟩⟩
  · -- no variable after the one that has the table is in its way
    have of_mem {x : List String × Value}
        (there : Value.Holds (·.isTable = true) p (nested x.1 x.2)) (inside : x ∈ xs)
        (passed : ∀ y : List String × Value, ¬x.1 <+: y.1 ∧ ¬y.1 <+: x.1 →
          (nested y.1 y.2).Open p) :
        ∃ before l after, .object [] :: xs.map (fun x => nested x.1 x.2) = before ++ l :: after ∧
          Value.Holds (·.isTable = true) p l ∧ ∀ z ∈ after, z.Open p := by
      obtain ⟨before, after, rfl, apart⟩ := exists_split compatible inside
      refine ⟨.object [] :: before.map fun x => nested x.1 x.2, nested x.1 x.2,
        after.map fun x => nested x.1 x.2, by simp, there, fun l mem => ?_⟩
      obtain ⟨y, later, rfl⟩ := List.mem_map.1 mem
      exact passed y (apart y later)
    rintro (rfl | ⟨x, inside, ⟨shorter, ne⟩ | ⟨rest, rfl, u, there, table⟩⟩)
    · refine ⟨[], .object [], _, rfl, ⟨_, rfl, rfl⟩, fun l mem => ?_⟩
      obtain ⟨y, inside, rfl⟩ := List.mem_map.1 mem
      exact Value.open_nil.2 (isTable_nested (named y inside))
    · refine of_mem (hasTable_nested shorter ne) inside fun y apart q hq u hu => ?_
      exact isTable_of_atPath?_nested hu fun h => apart.2 ((h.trans hq).trans shorter)
    · refine of_mem ⟨u, ?_, table⟩ inside fun y apart => (silent_nested apart rest).2
      rwa [atPath?_nested_append]

end

end Assignment

/-! ### Variables of the environment -/

namespace ConfigQuery

variable (q : ConfigQuery) (w : World)

/-- The nested keys that variables set, each with its value. -/
def assigned : List (List String × Value) :=
  w.env.filterMap fun (name, text) =>
    (Assignment.key? (q.variablePrefix ++ "_") name).map fun ks => (ks, Assignment.read text)

theorem ne_nil_of_key? {start name : String} {ks : List String}
    (h : Assignment.key? start name = some ks) : ks ≠ [] := by
  obtain ⟨rest, -, h⟩ := Option.bind_eq_some_iff.1 h
  simp only at h
  split at h
  · cases h
  · cases h
    simpa using Text.pieces_ne_nil '.' _

variable {q w}

theorem isOrdered_of_mem_assigned {x : List String × Value} (h : x ∈ q.assigned w) :
    x.2.IsOrdered := by
  obtain ⟨⟨name, text⟩, -, h⟩ := List.mem_filterMap.1 h
  obtain ⟨ks, -, rfl⟩ := Option.map_eq_some_iff.1 h
  exact Assignment.read_isOrdered text

theorem ne_nil_of_mem_assigned {x : List String × Value} (h : x ∈ q.assigned w) : x.1 ≠ [] := by
  obtain ⟨⟨name, text⟩, -, h⟩ := List.mem_filterMap.1 h
  obtain ⟨ks, key, rfl⟩ := Option.map_eq_some_iff.1 h
  exact ne_nil_of_key? key

/-- The assignments are the values at their nested keys. -/
theorem map_assignments (q : ConfigQuery) (w : World) :
    (q.assignments w).map Value.object =
      (q.assigned w).map fun x => Assignment.nested x.1 x.2 := by
  rw [assignments, assigned, List.map_filterMap, List.map_filterMap]
  refine List.filterMap_congr fun x _ => ?_
  obtain ⟨name, text⟩ := x
  simp only
  cases key : Assignment.key? (q.variablePrefix ++ "_") name with
  | none => rfl
  | some ks =>
    cases ks with
    | nil => exact absurd rfl (ne_nil_of_key? key)
    | cons k ks => rfl

/-- Merged fields are the fields of merged objects. -/
theorem object_foldl_mergeFields (base : Fields) (layers : List Fields) :
    Value.object (layers.foldl Value.mergeFields base) =
      (layers.map Value.object).foldl Value.merge (.object base) := by
  induction layers generalizing base with
  | nil => rfl
  | cons l layers ih =>
    rw [List.foldl_cons, ih, List.map_cons, List.foldl_cons, Value.merge]

/-- The assignments merged are the tree of the variables. -/
theorem object_assignments (q : ConfigQuery) (w : World) :
    .object ((q.assignments w).foldl Value.mergeFields []) = Assignment.tree (q.assigned w) := by
  rw [object_foldl_mergeFields, map_assignments, Assignment.tree]

end ConfigQuery

end HouseRules
