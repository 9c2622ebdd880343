import HouseRules.Config.Merge
import HouseRules.Proofs.Value.Fields

/-! Values along paths of names, and what merging does there. Of values merged one after the other,
what stands at a path is decided by the last that has anything to say of it. -/

namespace HouseRules

/-! ### Fields -/

namespace Fields

/-- What merging fields gives for a name: a value of theirs with the later one merged into it, if
there are both. -/
theorem get?_mergeFields {old new : Fields} (h : new.names.Nodup) (k : String) :
    (Value.mergeFields old new).get? k =
      match new.get? k, old.get? k with
      | none, w => w
      | some v, none => some v
      | some v, some w => some (Value.merge w v) := by
  induction new generalizing old with
  | nil => rw [Value.mergeFields]; rfl
  | cons f rest ih =>
    obtain ⟨n, v⟩ := f
    obtain ⟨absent, nodup⟩ := List.nodup_cons.1 h
    rw [Value.mergeFields, ih nodup, get?]
    by_cases same : n = k
    · subst same
      rw [if_pos rfl, get?_of_not_mem absent, get?_insert_self]
      cases old.get? n with
      | none => rfl
      | some w => rfl
    · rw [if_neg same, get?_insert_of_ne (Ne.symm same)]

end Fields

namespace Value

/-! ### Paths -/

def isTable : Value → Bool
  | .object _ => true
  | _ => false

/-- The value at a path of names, each of them that of a field. -/
def atPath? : List String → Value → Option Value
  | [], v => some v
  | k :: ks, .object fields => (Fields.get? k fields).bind (atPath? ks)
  | _ :: _, _ => none

/-- All that a value has along a path, from itself to the end, are tables. -/
def Open (p : List String) (v : Value) : Prop :=
  ∀ q, q <+: p → ∀ u, v.atPath? q = some u → u.isTable = true

/-- A value says nothing of a path: it has tables along it as far as it goes, and not to its
end. -/
def Silent (p : List String) (v : Value) : Prop := v.atPath? p = none ∧ v.Open p

/-- A value of some kind stands at a path. -/
def Holds (kind : Value → Prop) (p : List String) (v : Value) : Prop :=
  ∃ u, v.atPath? p = some u ∧ kind u

variable {a b v w : Value} {p : List String} {k : String} {fields old new : Fields}

theorem exists_of_isTable (h : v.isTable = true) : ∃ fields, v = .object fields := by
  cases v with
  | object fields => exact ⟨fields, rfl⟩
  | _ => cases h

theorem Open.isTable (h : v.Open p) : v.isTable = true := h [] List.nil_prefix v rfl

theorem open_nil : v.Open [] ↔ v.isTable = true := by
  refine ⟨Open.isTable, fun h q hq u hu => ?_⟩
  rw [List.prefix_nil.1 hq] at hu
  cases hu
  exact h

theorem open_cons {ks : List String} :
    Open (k :: ks) (.object fields) ↔ ∀ w, fields.get? k = some w → w.Open ks := by
  constructor
  · intro h w hw q hq u hu
    refine h (k :: q) (List.prefix_cons_inj k |>.2 hq) u ?_
    rw [atPath?, hw]
    exact hu
  · intro h q hq u hu
    cases q with
    | nil =>
      cases hu
      rfl
    | cons n q =>
      obtain ⟨rfl, shorter⟩ := List.cons_prefix_cons.1 hq
      rw [atPath?] at hu
      obtain ⟨w, hw, hu⟩ := Option.bind_eq_some_iff.1 hu
      exact h w hw q shorter u hu

theorem silent_cons {ks : List String} :
    Silent (k :: ks) (.object fields) ↔ ∀ w, fields.get? k = some w → w.Silent ks := by
  rw [Silent, atPath?, open_cons]
  cases fields.get? k with
  | none => simp
  | some w => simp [Silent]

theorem atPath?_cons_of_not_isTable (h : v.isTable = false) (ks : List String) :
    v.atPath? (k :: ks) = none := by
  cases v with
  | object fields => cases h
  | _ => rfl

theorem atPath?_singleton (k : String) (fields : Fields) :
    (Value.object fields).atPath? [k] = Fields.get? k fields := by
  rw [atPath?]
  cases Fields.get? k fields <;> rfl

theorem merge_of_not_isTable (h : a.isTable = false ∨ b.isTable = false) : merge a b = b := by
  rw [merge.eq_def]
  split
  · simp [isTable] at h
  · rfl

/-! ### Merging two values -/

theorem atPath?_merge_cons (h : new.names.Nodup) (ks : List String) :
    (merge (.object old) (.object new)).atPath? (k :: ks) =
      match new.get? k, old.get? k with
      | none, w => w.bind (atPath? ks)
      | some v, none => v.atPath? ks
      | some v, some w => (merge w v).atPath? ks := by
  rw [merge, atPath?, Fields.get?_mergeFields h]
  cases new.get? k with
  | none => rfl
  | some v =>
    cases old.get? k with
    | none => rfl
    | some w => rfl

/-- Every object in a value has its fields sorted by their names. -/
inductive IsOrdered : Value → Prop where
  | null : IsOrdered .null
  | bool (b : Bool) : IsOrdered (.bool b)
  | int (n : Int) : IsOrdered (.int n)
  | float (x : Binary64) : IsOrdered (.float x)
  | string (s : String) : IsOrdered (.string s)
  | array {items : List Value} (each : ∀ v ∈ items, IsOrdered v) : IsOrdered (.array items)
  | object {fields : Fields} (sorted : fields.IsSorted) (each : ∀ f ∈ fields, IsOrdered f.2) :
      IsOrdered (.object fields)

theorem IsOrdered.field (h : IsOrdered (.object fields)) (hv : fields.get? k = some v) :
    IsOrdered v := by
  cases h with
  | object sorted each => exact each _ (Fields.mem_of_get? hv)

theorem IsOrdered.names_nodup (h : IsOrdered (.object fields)) : fields.names.Nodup := by
  cases h with
  | object sorted each => exact sorted.names_nodup

theorem IsOrdered.insert (h : IsOrdered (.object fields)) (hv : v.IsOrdered) :
    IsOrdered (.object (fields.insert k v)) := by
  cases h with
  | object sorted each =>
    refine .object sorted.insert fun f mem => ?_
    obtain rfl | mem := Fields.mem_insert mem
    · exact hv
    · exact each f mem

theorem isOrdered_mergeFields (each : ∀ f ∈ new, ∀ a, IsOrdered a → IsOrdered (merge a f.2))
    (all : ∀ f ∈ new, IsOrdered f.2) (h : IsOrdered (.object old)) :
    IsOrdered (.object (mergeFields old new)) := by
  induction new generalizing old with
  | nil => rwa [mergeFields]
  | cons f rest ih =>
    obtain ⟨k, v⟩ := f
    obtain ⟨first, each⟩ := List.forall_mem_cons.1 each
    obtain ⟨here, all⟩ := List.forall_mem_cons.1 all
    rw [mergeFields]
    refine ih each all (h.insert ?_)
    cases found : Fields.get? k old with
    | none => exact here
    | some w => exact first w (h.field found)

theorem IsOrdered.merge (ha : a.IsOrdered) (hb : b.IsOrdered) : (merge a b).IsOrdered := by
  induction hb generalizing a with
  | object sorted each ih =>
    cases table : a.isTable with
    | true =>
      obtain ⟨old, rfl⟩ := exists_of_isTable table
      rw [Value.merge]
      exact isOrdered_mergeFields (fun f mem a ha => ih f mem ha) each ha
    | false =>
      rw [merge_of_not_isTable (.inl table)]
      exact .object sorted each
  | array each =>
    rw [merge_of_not_isTable (.inr rfl)]
    exact .array each
  | _ =>
    rw [merge_of_not_isTable (.inr rfl)]
    constructor

theorem isOrdered_foldl_merge {layers : List Value} (ordered : ∀ l ∈ layers, l.IsOrdered)
    (ha : a.IsOrdered) : (layers.foldl Value.merge a).IsOrdered := by
  induction layers generalizing a with
  | nil => exact ha
  | cons l layers ih =>
    obtain ⟨first, rest⟩ := List.forall_mem_cons.1 ordered
    exact ih rest (ha.merge first)

/-- A law of merging at the ends of paths follows from what it says of the values themselves, if
the later value can be passed by only along tables. -/
theorem holds_merge {kind : Value → Prop} {passes : List String → Value → Prop}
    (here : ∀ a b, kind (merge a b) ↔ kind b ∨ (kind a ∧ passes [] b))
    (below : ∀ k ks fields, passes (k :: ks) (.object fields) ↔
      ∀ w, Fields.get? k fields = some w → passes ks w)
    (tables : ∀ p v, passes p v → v.isTable = true) (hb : b.IsOrdered) :
    Holds kind p (merge a b) ↔ Holds kind p b ∨ (Holds kind p a ∧ passes p b) := by
  induction p generalizing a b with
  | nil => simpa [Holds, atPath?] using here a b
  | cons k ks ih =>
    by_cases both : a.isTable = true ∧ b.isTable = true
    · obtain ⟨⟨old, rfl⟩, new, rfl⟩ := both.imp exists_of_isTable exists_of_isTable
      rw [Holds, atPath?_merge_cons hb.names_nodup, below, Holds, Holds, atPath?, atPath?]
      cases hnew : Fields.get? k new with
      | none => simp
      | some v =>
        cases Fields.get? k old with
        | none => simp
        | some w => simpa [Holds] using ih (hb.field hnew)
    · rw [merge_of_not_isTable (by simpa [imp_iff_not_or] using both)]
      refine ⟨.inl, ?_⟩
      rintro (later | ⟨⟨u, hu, -⟩, passed⟩)
      · exact later
      · -- the later value can be passed by, so the earlier one has no fields
        have flat : a.isTable = false := by simpa [tables _ _ passed] using both
        rw [atPath?_cons_of_not_isTable flat] at hu
        cases hu

/-- At the end of a path a merged value has what the later one has there and is no table, or what
the earlier one has if the later one is silent. -/
theorem atPath?_merge_eq_some_iff (hb : b.IsOrdered) (leaf : v.isTable = false) :
    (merge a b).atPath? p = some v ↔
      b.atPath? p = some v ∨ (a.atPath? p = some v ∧ b.Silent p) := by
  have ends (x : Value) : x.atPath? p = some v ↔ Holds (· = v) p x := by simp [Holds]
  rw [ends, ends, ends]
  refine holds_merge (fun a b => ?_) (fun k ks fields => silent_cons)
    (fun p v silent => silent.2.isTable) hb
  by_cases tables : a.isTable = true ∧ b.isTable = true
  · obtain ⟨⟨old, rfl⟩, new, rfl⟩ := tables.imp exists_of_isTable exists_of_isTable
    have ne (fields : Fields) : Value.object fields ≠ v := by
      rintro rfl
      cases leaf
    simp [merge, ne]
  · rw [merge_of_not_isTable (by simpa [imp_iff_not_or] using tables)]
    simp [Silent, atPath?]

/-- A merged value has a table where the later one has one, or where the earlier one has one and
the later one has nothing else on the way. -/
theorem hasTable_merge_iff (hb : b.IsOrdered) :
    Holds (·.isTable = true) p (merge a b) ↔
      Holds (·.isTable = true) p b ∨ (Holds (·.isTable = true) p a ∧ b.Open p) := by
  refine holds_merge (fun a b => ?_) (fun k ks fields => open_cons) (fun p v => Open.isTable) hb
  by_cases tables : a.isTable = true ∧ b.isTable = true
  · obtain ⟨⟨old, rfl⟩, new, rfl⟩ := tables.imp exists_of_isTable exists_of_isTable
    simp [merge, isTable]
  · rw [merge_of_not_isTable (by simpa [imp_iff_not_or] using tables), open_nil]
    exact ⟨.inl, fun h => h.elim id And.right⟩

/-! ### Merging many values -/

/-- What holds of the result of steps was brought by one of the values and left by the later
ones, if that is so for each step. -/
theorem foldl_iff {α : Type} {f : α → α → α} (brings leaves : α → Prop) {xs : List α} (x : α)
    (step : ∀ a, ∀ b ∈ xs, brings (f a b) ↔ brings b ∨ (brings a ∧ leaves b)) :
    brings (xs.foldl f x) ↔
      ∃ before y after, x :: xs = before ++ y :: after ∧ brings y ∧ ∀ z ∈ after, leaves z := by
  induction xs using List.reverseRecOn with
  | nil =>
    constructor
    · exact fun h => ⟨[], x, [], rfl, h, nofun⟩
    · rintro ⟨before, y, after, split, h, -⟩
      obtain ⟨rfl, rfl, rfl⟩ : before = [] ∧ x = y ∧ after = [] := by
        cases before with
        | nil => simpa using split
        | cons c before => simp at split
      exact h
  | append_singleton xs b ih =>
    rw [List.foldl_append, List.foldl_cons, List.foldl_nil,
      step _ b (List.mem_append_right _ List.mem_cons_self),
      ih fun a c mem => step a c (List.mem_append_left _ mem)]
    constructor
    · rintro (last | ⟨⟨before, y, after, split, h, left⟩, leaves_b⟩)
      · exact ⟨x :: xs, b, [], rfl, last, nofun⟩
      · refine ⟨before, y, after ++ [b], ?_, h, fun z mem => ?_⟩
        · rw [← List.cons_append, split]
          simp
        · obtain mem | mem := List.mem_append.1 mem
          · exact left z mem
          · exact List.mem_singleton.1 mem ▸ leaves_b
    · rintro ⟨before, y, after, split, h, left⟩
      rw [← List.cons_append] at split
      obtain rfl | ⟨after, c, rfl⟩ := List.eq_nil_or_concat after
      · obtain ⟨-, last⟩ := List.append_inj' split rfl
        exact .inl (List.singleton_inj.1 last ▸ h)
      · rw [List.concat_eq_append] at split left
        rw [← List.cons_append, ← List.append_assoc] at split
        obtain ⟨front, last⟩ := List.append_inj' split rfl
        refine .inr ⟨⟨before, y, after, front, h, fun z mem => ?_⟩, ?_⟩
        · exact left z (List.mem_append_left _ mem)
        · exact List.singleton_inj.1 last ▸ left c (List.mem_append_right _ List.mem_cons_self)

/-- Where no table stands at the end of a path in merged values, it is what the last of them has
that is not silent. -/
theorem atPath?_foldl_merge_iff (base : Value) {layers : List Value}
    (ordered : ∀ l ∈ layers, l.IsOrdered) (leaf : v.isTable = false) :
    (layers.foldl merge base).atPath? p = some v ↔
      ∃ before l after, base :: layers = before ++ l :: after ∧ l.atPath? p = some v ∧
        ∀ x ∈ after, x.Silent p :=
  foldl_iff (fun l => l.atPath? p = some v) (Silent p) base fun _ b mem =>
    atPath?_merge_eq_some_iff (ordered b mem) leaf

/-- A table stands at a path in merged values if one of them has a table there and no later one
has anything else on the way. -/
theorem hasTable_foldl_merge_iff (base : Value) {layers : List Value}
    (ordered : ∀ l ∈ layers, l.IsOrdered) :
    Holds (·.isTable = true) p (layers.foldl merge base) ↔
      ∃ before l after, base :: layers = before ++ l :: after ∧ Holds (·.isTable = true) p l ∧
        ∀ x ∈ after, x.Open p :=
  foldl_iff (Holds (·.isTable = true) p) (Open p) base fun _ b mem =>
    hasTable_merge_iff (ordered b mem)

end Value

end HouseRules
