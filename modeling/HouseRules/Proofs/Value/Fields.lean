import HouseRules.Value.Basic
import Mathlib.Algebra.Group.Int.Defs
import Mathlib.Data.List.Induction
import Mathlib.Data.List.Nodup
import Mathlib.Data.String.Basic

/-! Fields in the order of their names: every object has them so, and they are the same whatever
order they were set in. A value is exact if that is so at every depth and its numbers are
integers. -/

namespace HouseRules.Fields

/-- The names rise strictly. -/
def IsSorted (fields : Fields) : Prop := fields.Pairwise fun a b => a.1 < b.1

variable {name : String} {value : Value} {fields : Fields}

theorem get?_of_not_mem (h : name ∉ fields.names) : fields.get? name = none := by
  induction fields with
  | nil => rfl
  | cons f rest ih =>
    obtain ⟨ne, absent⟩ := not_or.1 (mt List.mem_cons.2 h)
    rw [get?, if_neg (Ne.symm ne)]
    exact ih absent

theorem mem_of_get? (h : fields.get? name = some value) : (name, value) ∈ fields := by
  induction fields with
  | nil => cases h
  | cons f rest ih =>
    obtain ⟨n, x⟩ := f
    rw [get?] at h
    split at h
    · rename_i same
      cases h
      exact same ▸ List.mem_cons_self
    · exact List.mem_cons_of_mem _ (ih h)

theorem mem_names_iff : name ∈ fields.names ↔ ∃ v, fields.get? name = some v := by
  constructor
  · intro mem
    by_contra absent
    induction fields with
    | nil => exact absurd mem List.not_mem_nil
    | cons f rest ih =>
      obtain ⟨n, v⟩ := f
      by_cases same : n = name
      · exact absent ⟨v, if_pos same⟩
      · refine ih ((List.mem_cons.1 mem).resolve_left (Ne.symm same)) fun ⟨v, hv⟩ => absent ⟨v, ?_⟩
        rwa [get?, if_neg same]
  · rintro ⟨v, hv⟩
    exact List.mem_map.2 ⟨_, mem_of_get? hv, rfl⟩

theorem IsSorted.names_nodup (h : IsSorted fields) : fields.names.Nodup :=
  (List.pairwise_map.2 h).imp ne_of_lt

theorem mem_insert {f : String × Value} (h : f ∈ insert name value fields) :
    f = (name, value) ∨ f ∈ fields := by
  induction fields with
  | nil => exact .inl (List.mem_singleton.1 h)
  | cons g rest ih =>
    obtain ⟨n, v⟩ := g
    rw [insert] at h
    split at h
    · exact (List.mem_cons.1 h).imp_right (List.mem_cons_of_mem _)
    split at h
    · exact List.mem_cons.1 h
    · obtain rfl | h := List.mem_cons.1 h
      · exact .inr List.mem_cons_self
      · exact (ih h).imp_right (List.mem_cons_of_mem _)

theorem IsSorted.insert (h : IsSorted fields) : IsSorted (insert name value fields) := by
  induction fields with
  | nil => exact List.pairwise_singleton _ _
  | cons g rest ih =>
    obtain ⟨n, v⟩ := g
    obtain ⟨above, sorted⟩ := List.pairwise_cons.1 h
    rw [Fields.insert]
    split
    · rename_i same
      subst same
      exact List.pairwise_cons.2 ⟨above, sorted⟩
    split
    · rename_i lt
      refine List.pairwise_cons.2 ⟨fun f hf => ?_, h⟩
      obtain rfl | hf := List.mem_cons.1 hf
      · exact lt
      · exact lt.trans (above f hf)
    · rename_i ne not_less
      have gt : n < name := lt_of_le_of_ne (not_lt.1 not_less) (Ne.symm ne)
      refine List.pairwise_cons.2 ⟨fun f hf => ?_, ih sorted⟩
      obtain rfl | hf := mem_insert hf
      · exact gt
      · exact above f hf

/-- Setting a field of a new name adds it. -/
theorem insert_perm (h : name ∉ fields.names) :
    (insert name value fields).Perm ((name, value) :: fields) := by
  induction fields with
  | nil => exact List.Perm.refl _
  | cons g rest ih =>
    obtain ⟨n, v⟩ := g
    obtain ⟨ne, absent⟩ := not_or.1 (mt List.mem_cons.2 h)
    rw [insert, if_neg ne]
    split
    · exact List.Perm.refl _
    · exact ((ih absent).cons _).trans (List.Perm.swap _ _ _)

theorem foldl_insert (pairs : List (String × Value)) (sorted : IsSorted fields)
    (nodup : (names pairs ++ names fields).Nodup) :
    IsSorted (pairs.foldl (fun fields (n, v) => insert n v fields) fields) ∧
      (pairs.foldl (fun fields (n, v) => insert n v fields) fields).Perm (pairs ++ fields) := by
  induction pairs generalizing fields with
  | nil => exact ⟨sorted, List.Perm.refl _⟩
  | cons p pairs ih =>
    obtain ⟨n, v⟩ := p
    obtain ⟨absent, rest⟩ := List.nodup_cons.1 nodup
    have added : (insert n v fields).Perm ((n, v) :: fields) :=
      insert_perm fun h => absent (List.mem_append_right _ h)
    have nodup' : (names pairs ++ names (insert n v fields)).Nodup := by
      have perm : (names pairs ++ names (insert n v fields)).Perm
          (n :: (names pairs ++ names fields)) :=
        ((added.map Prod.fst).append_left _).trans List.perm_middle
      exact perm.nodup_iff.2 nodup
    obtain ⟨sorted', perm⟩ := ih sorted.insert nodup'
    exact ⟨sorted', perm.trans ((added.append_left _).trans List.perm_middle)⟩

theorem IsSorted.eq_of_perm {fields' : Fields} (h : IsSorted fields) (h' : IsSorted fields')
    (perm : fields.Perm fields') : fields = fields' := by
  have asymm : ∀ a b : String × Value, a ∈ fields → b ∈ fields' → a.1 < b.1 → b.1 < a.1 → a = b :=
    fun a b _ _ ab ba => absurd ba ab.asymm
  exact perm.eq_of_pairwise asymm h h'

/-- The fields of an object come out the same in whatever order they are given. -/
theorem ofList_eq_of_perm {pairs : List (String × Value)} (sorted : IsSorted fields)
    (perm : pairs.Perm fields) : ofList pairs = fields := by
  have nodup : (names pairs ++ names []).Nodup := by
    rw [names, names, List.map_nil, List.append_nil]
    exact (perm.map Prod.fst).nodup_iff.2 sorted.names_nodup
  obtain ⟨sorted', perm'⟩ := foldl_insert pairs List.Pairwise.nil nodup
  rw [List.append_nil] at perm'
  exact sorted'.eq_of_perm sorted (perm'.trans perm)

/-! ### Fields by name -/

theorem IsSorted.get?_eq_some_iff (h : IsSorted fields) :
    fields.get? name = some value ↔ (name, value) ∈ fields := by
  refine ⟨mem_of_get?, fun mem => ?_⟩
  induction fields with
  | nil => exact absurd mem List.not_mem_nil
  | cons f rest ih =>
    obtain ⟨above, sorted⟩ := List.pairwise_cons.1 h
    obtain rfl | mem := List.mem_cons.1 mem
    · exact if_pos rfl
    · exact (if_neg (above _ mem).ne).trans (ih sorted mem)

/-- Fields that give every name the same value are the same. -/
theorem IsSorted.ext {fields' : Fields} (h : IsSorted fields) (h' : IsSorted fields')
    (same : ∀ name value, fields.get? name = some value ↔ fields'.get? name = some value) :
    fields = fields' := by
  refine h.eq_of_perm h' ((List.perm_ext_iff_of_nodup (h.names_nodup.of_map)
    (h'.names_nodup.of_map)).2 fun f => ?_)
  rw [← h.get?_eq_some_iff, ← h'.get?_eq_some_iff]
  exact same f.1 f.2

theorem ofList_concat (pairs : List (String × Value)) (name : String) (value : Value) :
    ofList (pairs ++ [(name, value)]) = (ofList pairs).insert name value :=
  List.foldl_concat _ _ _ _

theorem mem_names_ofList {pairs : List (String × Value)} :
    name ∈ (ofList pairs).names ↔ name ∈ names pairs := by
  induction pairs using List.reverseRecOn with
  | nil => exact Iff.rfl
  | append_singleton pairs p ih =>
    obtain ⟨n, v⟩ := p
    have added : names (pairs ++ [(n, v)]) = names pairs ++ [n] := List.map_append
    rw [ofList_concat, mem_names_iff, added, List.mem_append, List.mem_singleton]
    by_cases same : name = n
    · subst same
      simp [get?_insert_self]
    · rw [get?_insert_of_ne same, ← mem_names_iff, ih]
      simp [same]

theorem isSorted_ofList (pairs : List (String × Value)) : IsSorted (ofList pairs) := by
  induction pairs using List.reverseRecOn with
  | nil => exact List.Pairwise.nil
  | append_singleton pairs p ih =>
    rw [ofList_concat]
    exact ih.insert

end HouseRules.Fields

namespace HouseRules

/-- A value without floating point numbers: its integers have 64 bits, and the fields of its
objects are sorted. -/
inductive Value.IsExact : Value → Prop where
  | null : IsExact .null
  | bool (b : Bool) : IsExact (.bool b)
  | int {n : Int} (low : -2 ^ 63 ≤ n) (high : n ≤ 2 ^ 64 - 1) : IsExact (.int n)
  | string (s : String) : IsExact (.string s)
  | array {items : List Value} (each : ∀ v ∈ items, IsExact v) : IsExact (.array items)
  | object {fields : Fields} (sorted : fields.IsSorted) (each : ∀ f ∈ fields, IsExact f.2) :
      IsExact (.object fields)

end HouseRules
