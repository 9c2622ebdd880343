import HouseRules.Proofs.Value.Paths
import HouseRules.Toml.Document

/-! The tables of a TOML document are ordered: whatever its lines are, no name occurs twice in a
table, and names come in their order. -/

namespace HouseRules

namespace Toml

/-! ### Scalars -/

section

variable {token : List Char} {v : Value}

theorem signed64?_isOrdered {n : Int} (h : signed64? n = some v) : v.IsOrdered := by
  rw [signed64?] at h
  split at h
  · cases h
    exact .int n
  · cases h

theorem integer?_isOrdered (h : integer? token = some v) : v.IsOrdered := by
  rw [integer?.eq_def] at h
  split at h <;>
  · obtain ⟨digits, -, h⟩ := Option.bind_eq_some_iff.1 h
    obtain ⟨n, -, h⟩ := Option.bind_eq_some_iff.1 h
    exact signed64?_isOrdered h

/-- Which tokens are numbers does not matter for what they are read as. -/
theorem exists_float?_eq (token : List Char) : ∃ wellFormed : Bool, float? token =
    if (Decimal.takeSign token).2 = "inf".toList then
      some (.float (.infinite (Decimal.takeSign token).1))
    else if (Decimal.takeSign token).2 = "nan".toList then some (.float .nan)
    else if wellFormed = true then
      match Binary64.parse? (token.filter (· ≠ '_')) with
      | some (.infinite false) => none
      | some x => some (.float x)
      | none => none
    else none := ⟨_, rfl⟩

theorem float?_isOrdered (h : float? token = some v) : v.IsOrdered := by
  obtain ⟨wellFormed, shape⟩ := exists_float?_eq token
  rw [shape] at h
  split at h
  · cases h
    exact .float _
  split at h
  · cases h
    exact .float _
  split at h
  · split at h
    · cases h
    · cases h
      exact .float _
    · cases h
  · cases h

theorem dateTime?_isOrdered (h : dateTime? token = some v) : v.IsOrdered := by
  obtain ⟨text, -, rfl⟩ := Option.map_eq_some_iff.1 h
  exact .object (List.pairwise_singleton _ _) (List.forall_mem_singleton.2 (.string _))

theorem bareValue?_isOrdered (h : bareValue? token = some v) : v.IsOrdered := by
  rw [bareValue?] at h
  split at h
  · cases h
    exact .bool true
  split at h
  · cases h
    exact .bool false
  split at h
  · rename_i found
    cases h
    exact integer?_isOrdered found
  split at h
  · rename_i found
    cases h
    exact float?_isOrdered found
  · exact dateTime?_isOrdered h

end

/-! ### Values -/

namespace Inline

/-- All values in an entry of an inline table are ordered. -/
inductive IsOrdered : Inline → Prop where
  | value {v : Value} (h : v.IsOrdered) : IsOrdered (.value v)
  | table {opened : Bool} {entries : List (String × Inline)}
      (each : ∀ e ∈ entries, IsOrdered e.2) : IsOrdered (.table opened entries)

variable {k : String} {i : Inline} {v : Value} {entries result : List (String × Inline)}

theorem mem_of_find? (h : find? k entries = some i) : (k, i) ∈ entries := by
  induction entries with
  | nil => cases h
  | cons e rest ih =>
    obtain ⟨n, x⟩ := e
    rw [find?] at h
    split at h
    · rename_i same
      cases h
      exact same ▸ List.mem_cons_self
    · exact List.mem_cons_of_mem _ (ih h)

theorem isOrdered_put (h : ∀ e ∈ entries, IsOrdered e.2) (hi : i.IsOrdered) :
    ∀ e ∈ put k i entries, IsOrdered e.2 := by
  intro e mem
  obtain rfl | mem := List.mem_cons.1 mem
  · exact hi
  · exact h e (List.mem_of_mem_filter mem)

theorem isOrdered_assign {ks : List String} (h : ∀ e ∈ entries, IsOrdered e.2) (hv : v.IsOrdered)
    (assigned : assign v ks entries = some result) : ∀ e ∈ result, IsOrdered e.2 := by
  fun_induction assign v ks entries generalizing result with
  | case1 => cases assigned
  | case2 k entries missing =>
    cases assigned
    exact isOrdered_put h (.value hv)
  | case3 => cases assigned
  | case4 k ks entries _ missing ih =>
    obtain ⟨inner, below, rfl⟩ := Option.map_eq_some_iff.1 assigned
    exact isOrdered_put h (.table (ih nofun below))
  | case5 k ks entries _ inner found ih =>
    obtain ⟨after, below, rfl⟩ := Option.map_eq_some_iff.1 assigned
    have old := h _ (mem_of_find? found)
    cases old with
    | table each => exact isOrdered_put h (.table (ih each below))
  | case6 => cases assigned

theorem isOrdered_toFields (h : ∀ e ∈ entries, IsOrdered e.2)
    (each : ∀ e ∈ entries, e.2.toValue.IsOrdered) : Value.IsOrdered (.object (toFields entries)) := by
  induction entries with
  | nil =>
    rw [toFields]
    exact .object List.Pairwise.nil nofun
  | cons e rest ih =>
    rw [toFields]
    exact (ih (fun e mem => h e (List.mem_cons_of_mem _ mem))
      fun e mem => each e (List.mem_cons_of_mem _ mem)).insert (each e List.mem_cons_self)

theorem IsOrdered.toValue (h : i.IsOrdered) : i.toValue.IsOrdered := by
  induction h with
  | value h => rwa [Inline.toValue]
  | table each ih =>
    rw [Inline.toValue]
    exact isOrdered_toFields each ih

end Inline

section

variable {fuel : Nat} {s r : List Char} {v : Value}

/-- Values, items and members that are read with some bound are ordered. -/
structure ReadsOrdered (fuel : Nat) : Prop where
  value : ∀ {s v r}, value fuel s = some (v, r) → v.IsOrdered
  items : ∀ {s vs r}, items fuel s = some (vs, r) → ∀ v ∈ vs, v.IsOrdered
  members : ∀ {entries s es r}, (∀ e ∈ entries, Inline.IsOrdered e.2) →
    members fuel entries s = some (es, r) → ∀ e ∈ es, e.2.IsOrdered

theorem readsOrdered_zero : ReadsOrdered 0 where
  value h := by rw [Toml.value] at h; cases h
  items h := by rw [Toml.items] at h; cases h
  members _ h := by rw [Toml.members] at h; cases h

theorem value_of_readsOrdered (ih : ReadsOrdered fuel) (h : value (fuel + 1) s = some (v, r)) :
    v.IsOrdered := by
  rw [value.eq_def] at h
  simp only at h
  split at h
  · obtain ⟨⟨vs, rest⟩, read, same⟩ := Option.map_eq_some_iff.1 h
    cases same
    exact .array (ih.items read)
  · split at h
    · cases h
      exact .object List.Pairwise.nil nofun
    · obtain ⟨⟨es, rest⟩, read, same⟩ := Option.map_eq_some_iff.1 h
      cases same
      have each := ih.members (List.forall_mem_nil _) read
      exact Inline.isOrdered_toFields each fun e mem => (each e mem).toValue
  · split at h
    · obtain ⟨⟨text, rest⟩, -, same⟩ := Option.map_eq_some_iff.1 h
      cases same
      exact .string _
    · obtain ⟨w, read, same⟩ := Option.map_eq_some_iff.1 h
      cases same
      exact bareValue?_isOrdered read
  · cases h

theorem items_of_readsOrdered (ih : ReadsOrdered fuel) {vs : List Value}
    (h : items (fuel + 1) s = some (vs, r)) : ∀ v ∈ vs, v.IsOrdered := by
  rw [items.eq_def] at h
  simp only at h
  split at h
  · cases h
    exact nofun
  · obtain ⟨⟨v, rest⟩, read, h⟩ := Option.bind_eq_some_iff.1 h
    simp only at h
    split at h
    · obtain ⟨⟨more, rest⟩, later, same⟩ := Option.map_eq_some_iff.1 h
      cases same
      exact List.forall_mem_cons.2 ⟨ih.value read, ih.items later⟩
    · cases h
      exact List.forall_mem_singleton.2 (ih.value read)
    · cases h

theorem members_of_readsOrdered (ih : ReadsOrdered fuel) {entries es : List (String × Inline)}
    (before : ∀ e ∈ entries, Inline.IsOrdered e.2)
    (h : members (fuel + 1) entries s = some (es, r)) : ∀ e ∈ es, e.2.IsOrdered := by
  rw [members] at h
  obtain ⟨⟨k, rest⟩, -, h⟩ := Option.bind_eq_some_iff.1 h
  simp only at h
  split at h
  · obtain ⟨⟨v, rest⟩, read, h⟩ := Option.bind_eq_some_iff.1 h
    obtain ⟨added, assigned, h⟩ := Option.bind_eq_some_iff.1 h
    have after := Inline.isOrdered_assign before (ih.value read) assigned
    simp only at h
    split at h
    · exact ih.members after h
    · cases h
      exact after
    · cases h
  · cases h

theorem readsOrdered (fuel : Nat) : ReadsOrdered fuel := by
  induction fuel with
  | zero => exact readsOrdered_zero
  | succ fuel ih =>
    exact ⟨value_of_readsOrdered ih, items_of_readsOrdered ih, members_of_readsOrdered ih⟩

end

/-! ### Lines -/

/-- The value of an assignment is ordered. -/
def Line.IsOrdered : Line → Prop
  | header _ _ => True
  | assignment _ v => v.IsOrdered

theorem line?_isOrdered {s r : List Char} {line : Line} (h : line? s = some (line, r)) :
    line.IsOrdered := by
  rw [line?.eq_def] at h
  split at h
  · obtain ⟨⟨path, rest⟩, -, h⟩ := Option.bind_eq_some_iff.1 h
    simp only at h
    split at h
    · cases h
      trivial
    · cases h
  · obtain ⟨⟨path, rest⟩, -, h⟩ := Option.bind_eq_some_iff.1 h
    simp only at h
    split at h
    · cases h
      trivial
    · cases h
  · obtain ⟨⟨path, rest⟩, -, h⟩ := Option.bind_eq_some_iff.1 h
    simp only at h
    split at h
    · obtain ⟨⟨v, rest⟩, read, h⟩ := Option.bind_eq_some_iff.1 h
      cases h
      exact (readsOrdered _).value read
    · cases h

theorem lines?_isOrdered {fuel : Nat} {s : List Char} {lines : List Line}
    (h : lines? fuel s = some lines) : ∀ line ∈ lines, line.IsOrdered := by
  induction fuel generalizing s lines with
  | zero => cases h
  | succ fuel ih =>
    rw [lines?] at h
    split at h
    · cases h
      exact nofun
    split at h
    · cases h
      exact nofun
    obtain ⟨⟨line, rest⟩, first, h⟩ := Option.bind_eq_some_iff.1 h
    obtain ⟨rest, -, h⟩ := Option.bind_eq_some_iff.1 h
    obtain ⟨more, later, h⟩ := Option.bind_eq_some_iff.1 h
    cases h
    exact List.forall_mem_cons.2 ⟨line?_isOrdered first, ih later⟩

/-! ### Tables -/

namespace Node

/-- All values in a part of a document are ordered. -/
inductive IsOrdered : Node → Prop where
  | value {v : Value} (h : v.IsOrdered) : IsOrdered (.value v)
  | table {implicit dotted : Bool} {entries : Entries} (each : ∀ e ∈ entries, IsOrdered e.2) :
      IsOrdered (.table implicit dotted entries)
  | items {tables : List Entries} (each : ∀ t ∈ tables, ∀ e ∈ t, IsOrdered e.2) :
      IsOrdered (.items tables)

def Table.IsOrdered (t : Table) : Prop := ∀ e ∈ t.entries, e.2.IsOrdered

variable {k : String} {x : Node} {entries : Entries} {t u : Table}

theorem mem_of_find? (h : find? k entries = some x) : (k, x) ∈ entries := by
  induction entries with
  | nil => cases h
  | cons e rest ih =>
    obtain ⟨n, y⟩ := e
    rw [find?] at h
    split at h
    · rename_i same
      cases h
      exact same ▸ List.mem_cons_self
    · exact List.mem_cons_of_mem _ (ih h)

theorem Table.IsOrdered.put (h : t.IsOrdered) (hx : x.IsOrdered) :
    Table.IsOrdered { t with entries := put k x t.entries } := by
  intro e mem
  obtain rfl | mem := List.mem_cons.1 mem
  · exact hx
  · exact h e (List.mem_of_mem_filter mem)

theorem Table.IsOrdered.filter (h : t.IsOrdered) (keep : String × Node → Bool) :
    Table.IsOrdered { t with entries := t.entries.filter keep } :=
  fun e mem => h e (List.mem_of_mem_filter mem)

theorem Table.IsOrdered.node (h : t.IsOrdered) : t.node.IsOrdered := .table h

theorem Table.IsOrdered.find? (h : t.IsOrdered) (found : Node.find? k t.entries = some x) :
    x.IsOrdered := h _ (mem_of_find? found)

/-- A change that keeps tables ordered does so wherever it is made. -/
theorem isOrdered_change {dotted : Bool} {f : Table → Option Table}
    (hf : ∀ {t u : Table}, t.IsOrdered → f t = some u → u.IsOrdered) {ks : List String}
    (h : t.IsOrdered) (changed : change dotted f ks t = some u) : u.IsOrdered := by
  fun_induction change dotted f ks t generalizing u with
  | case1 t => exact hf h changed
  | case2 t k ks missing ih =>
    obtain ⟨inner, below, same⟩ := Option.bind_eq_some_iff.1 changed
    cases same
    exact h.put (ih nofun below).node
  | case3 => cases changed
  | case4 t k ks implicit isDotted entries found _ ih =>
    obtain ⟨inner, below, same⟩ := Option.bind_eq_some_iff.1 changed
    cases same
    cases h.find? found with
    | table each => exact h.put (ih each below).node
  | case5 t k ks last more found ih =>
    obtain ⟨inner, below, same⟩ := Option.bind_eq_some_iff.1 changed
    cases same
    cases h.find? found with
    | items each =>
      obtain ⟨first, rest⟩ := List.forall_mem_cons.1 each
      exact h.put (.items (List.forall_mem_cons.2 ⟨ih first below, rest⟩))
  | case6 => cases changed

theorem isOrdered_assign {path : List String} {v : Value} (h : t.IsOrdered) (hv : v.IsOrdered)
    (assigned : assign path v t = some u) : u.IsOrdered := by
  rw [assign] at assigned
  split at assigned
  · cases assigned
  · refine isOrdered_change (fun {t u} h changed => ?_) h assigned
    split at changed
    · cases changed
    split at changed
    · cases changed
      exact h.put (.value hv)
    · cases changed

theorem isOrdered_toFields (each : ∀ e ∈ entries, e.2.toValue.IsOrdered) :
    Value.IsOrdered (.object (toFields entries)) := by
  induction entries with
  | nil =>
    rw [toFields]
    exact .object List.Pairwise.nil nofun
  | cons e rest ih =>
    rw [toFields]
    exact (ih fun e mem => each e (List.mem_cons_of_mem _ mem)).insert (each e List.mem_cons_self)

theorem isOrdered_toObjects {tables : List Entries}
    (each : ∀ t ∈ tables, ∀ e ∈ t, e.2.toValue.IsOrdered) :
    ∀ v ∈ toObjects tables, v.IsOrdered := by
  induction tables with
  | nil =>
    rw [toObjects]
    exact nofun
  | cons t rest ih =>
    rw [toObjects]
    obtain ⟨first, rest⟩ := List.forall_mem_cons.1 each
    exact List.forall_mem_cons.2 ⟨isOrdered_toFields first, ih rest⟩

theorem IsOrdered.toValue (h : x.IsOrdered) : x.toValue.IsOrdered := by
  induction h with
  | value h => rwa [Node.toValue]
  | table _ ih =>
    rw [Node.toValue]
    exact isOrdered_toFields ih
  | items _ ih =>
    rw [Node.toValue]
    exact .array fun v mem => isOrdered_toObjects ih v (List.mem_reverse.1 mem)

end Node

/-! ### Documents -/

namespace Draft

open Node (Table)

structure IsOrdered (d : Draft) : Prop where
  root : d.root.IsOrdered
  current : d.current.IsOrdered

variable {d : Draft} {t root : Table}

theorem IsOrdered.close (h : d.IsOrdered) (closed : d.close = some t) : t.IsOrdered := by
  rw [Draft.close] at closed
  split at closed
  · cases closed
    exact h.current
  · refine Node.isOrdered_change (fun {t u} before changed => ?_) h.root closed
    split at changed
    · split at changed
      · cases changed
        exact before.put (.items (List.forall_mem_singleton.2 h.current))
      · rename_i ts found
        cases changed
        cases before.find? found with
        | items each => exact before.put (.items (List.forall_mem_cons.2 ⟨h.current, each⟩))
      · cases changed
    · split at changed
      · cases changed
        exact before.put h.current.node
      · cases changed
        exact before.put h.current.node
      · cases changed

theorem isOrdered_descend {ks : List String} {u : Table} (h : t.IsOrdered)
    (found : reopened.descend ks t = some u) : u.IsOrdered := by
  fun_induction reopened.descend ks t with
  | case1 => 
    cases found
    exact h
  | case2 t n ns i d es there ih =>
    cases h.find? there with
    | table each => exact ih each found
  | case3 t n ns last more there ih =>
    cases h.find? there with
    | items each => exact ih (List.forall_mem_cons.1 each).1 found
  | case4 => cases found

theorem isOrdered_reopened {before : List String} {k : String} {fresh : Table}
    (h : root.IsOrdered) (opened : reopened root before k = some (t, fresh)) :
    t.IsOrdered ∧ fresh.IsOrdered := by
  obtain ⟨whole, changed, opened⟩ := Option.bind_eq_some_iff.1 opened
  obtain ⟨parent, found, opened⟩ := Option.bind_eq_some_iff.1 opened
  have ordered : whole.IsOrdered := Node.isOrdered_change
    (fun {t u} before same => Option.some.inj same ▸ before) h changed
  have inside := isOrdered_descend ordered found
  split at opened
  · cases opened
    exact ⟨ordered, nofun⟩
  · rename_i entries implicit
    obtain ⟨rest, removed, same⟩ := Option.bind_eq_some_iff.1 opened
    cases same
    refine ⟨Node.isOrdered_change (fun {t u} before same => ?_) ordered removed, ?_⟩
    · cases same
      exact before.filter _
    · cases inside.find? implicit with
      | table each => exact each
  · cases opened

theorem IsOrdered.openTable {e : Draft} {isItem : Bool} {path : List String} (h : d.IsOrdered)
    (opened : d.openTable isItem path = some e) : e.IsOrdered := by
  obtain ⟨root, closed, opened⟩ := Option.bind_eq_some_iff.1 opened
  have ordered := h.close closed
  split at opened
  · cases opened
  split at opened
  · obtain ⟨whole, changed, same⟩ := Option.bind_eq_some_iff.1 opened
    cases same
    refine ⟨Node.isOrdered_change (fun {t u} before same => ?_) ordered changed, nofun⟩
    split at same
    · cases same
      exact before
    · cases same
      exact before
    · cases same
  · obtain ⟨⟨whole, fresh⟩, reopened, same⟩ := Option.bind_eq_some_iff.1 opened
    cases same
    obtain ⟨whole, fresh⟩ := isOrdered_reopened ordered reopened
    exact ⟨whole, fresh⟩

theorem IsOrdered.step {e : Draft} {line : Line} (h : d.IsOrdered) (hline : line.IsOrdered)
    (stepped : d.step line = some e) : e.IsOrdered := by
  cases line with
  | header isItem path => exact h.openTable stepped
  | assignment path v =>
    obtain ⟨after, assigned, same⟩ := Option.map_eq_some_iff.1 stepped
    cases same
    exact ⟨h.root, Node.isOrdered_assign h.current hline assigned⟩

theorem IsOrdered.steps {e : Draft} {lines : List Line} (h : d.IsOrdered)
    (each : ∀ line ∈ lines, line.IsOrdered) (stepped : lines.foldlM Draft.step d = some e) :
    e.IsOrdered := by
  induction lines generalizing d with
  | nil =>
    cases stepped
    exact h
  | cons line lines ih =>
    obtain ⟨first, rest⟩ := List.forall_mem_cons.1 each
    rw [List.foldlM_cons] at stepped
    obtain ⟨next, one, stepped⟩ := Option.bind_eq_some_iff.1 stepped
    exact ih (h.step first one) rest stepped

end Draft

/-- The table of a document is ordered. -/
theorem read?_isOrdered {text : String} {fields : Fields} (h : read? text = some fields) :
    Value.IsOrdered (.object fields) := by
  obtain ⟨lines, read, h⟩ := Option.bind_eq_some_iff.1 h
  obtain ⟨draft, stepped, h⟩ := Option.bind_eq_some_iff.1 h
  obtain ⟨root, closed, same⟩ := Option.bind_eq_some_iff.1 h
  cases same
  have empty : Draft.empty.IsOrdered := ⟨nofun, nofun⟩
  have ordered := (empty.steps (lines?_isOrdered read) stepped).close closed
  exact Node.isOrdered_toFields fun e mem => (ordered e mem).toValue

end Toml

end HouseRules
