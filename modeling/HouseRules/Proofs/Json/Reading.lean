import HouseRules.Json.Reader
import HouseRules.Proofs.Value.Fields

/-! What trees denote. The fields of every object are sorted, every integer has 64 bits, and a value
is not deeper than a tree that denotes it. So a value without floating point numbers that a tree
denotes is exact. -/

namespace HouseRules

/-! ### Depth of values -/

namespace Value

mutual

/-- How many arrays and objects stand around the innermost part of a value. -/
def depth : Value → Nat
  | .array items => depthItems items + 1
  | .object fields => depthFields fields + 1
  | _ => 0

def depthItems : List Value → Nat
  | [] => 0
  | v :: vs => max v.depth (depthItems vs)

def depthFields : List (String × Value) → Nat
  | [] => 0
  | (_, v) :: fields => max v.depth (depthFields fields)

end

variable {n : Nat}

theorem depthItems_le_iff {vs : List Value} : depthItems vs ≤ n ↔ ∀ v ∈ vs, v.depth ≤ n := by
  induction vs with
  | nil => simp [depthItems]
  | cons v vs ih => simp [depthItems, ih]

theorem depthFields_le_iff {fields : Fields} :
    depthFields fields ≤ n ↔ ∀ f ∈ fields, f.2.depth ≤ n := by
  induction fields with
  | nil => simp [depthFields]
  | cons f fields ih => simp [depthFields, ih]

/-- A value without floating point numbers. -/
inductive IsWhole : Value → Prop where
  | null : IsWhole .null
  | bool (b : Bool) : IsWhole (.bool b)
  | int (n : Int) : IsWhole (.int n)
  | string (s : String) : IsWhole (.string s)
  | array {items : List Value} (each : ∀ v ∈ items, IsWhole v) : IsWhole (.array items)
  | object {fields : Fields} (each : ∀ f ∈ fields, IsWhole f.2) : IsWhole (.object fields)

theorem IsExact.isWhole {v : Value} (h : v.IsExact) : v.IsWhole := by
  induction h with
  | null => exact .null
  | bool b => exact .bool b
  | int low high => exact .int _
  | string s => exact .string s
  | array each ih => exact .array ih
  | object sorted each ih => exact .object ih

end Value

namespace Json

/-! ### Depth of trees -/

theorem depth_le_depthItems {t : Tree} {ts : List Tree} (mem : t ∈ ts) :
    t.depth ≤ depthItems ts := by
  induction ts with
  | nil => exact absurd mem List.not_mem_nil
  | cons u ts ih =>
    rw [depthItems]
    obtain rfl | mem := List.mem_cons.1 mem
    · exact le_max_left _ _
    · exact (ih mem).trans (le_max_right _ _)

theorem depth_le_depthMembers {m : List Char × Tree} {ms : List (List Char × Tree)}
    (mem : m ∈ ms) : m.2.depth ≤ depthMembers ms := by
  induction ms with
  | nil => exact absurd mem List.not_mem_nil
  | cons k ms ih =>
    rw [depthMembers]
    obtain rfl | mem := List.mem_cons.1 mem
    · exact le_max_left _ _
    · exact (ih mem).trans (le_max_right _ _)

/-! ### Parts of what a tree denotes -/

theorem number?_cases {text : List Char} {v : Value} (h : number? text = some v) :
    (∃ n, v = .int n ∧ Value.inRange n = true) ∨ ∃ x, v = .float x := by
  have float : ∀ {p : Option Binary64},
      (p.bind fun x => if x.isFinite then some (Value.float x) else none) = some v →
        ∃ x, v = .float x := by
    intro p h
    obtain ⟨x, -, h⟩ := Option.bind_eq_some_iff.1 h
    split at h
    · exact ⟨x, (Option.some.inj h).symm⟩
    · cases h
  simp only [number?] at h
  split at h
  · exact .inr (float h)
  split at h
  · split at h
    · exact .inl ⟨_, (Option.some.inj h).symm, ‹_›⟩
    · exact .inr (float h)
  · exact .inr (float h)

theorem exists_of_valueItems? {ts : List Tree} {vs : List Value} (h : valueItems? ts = some vs) :
    ∀ v ∈ vs, ∃ t ∈ ts, t.value? = some v := by
  induction ts generalizing vs with
  | nil =>
    cases h
    exact fun v mem => absurd mem List.not_mem_nil
  | cons t ts ih =>
    rw [valueItems?] at h
    obtain ⟨w, first, h⟩ := Option.bind_eq_some_iff.1 h
    obtain ⟨ws, rest, h⟩ := Option.bind_eq_some_iff.1 h
    cases h
    intro v mem
    obtain rfl | mem := List.mem_cons.1 mem
    · exact ⟨t, List.mem_cons_self, first⟩
    · obtain ⟨u, inside, denotes⟩ := ih rest v mem
      exact ⟨u, List.mem_cons_of_mem _ inside, denotes⟩

/-- Fields come from those so far or from members. -/
theorem exists_of_valueMembers? {ms : List (List Char × Tree)} {acc fields : Fields}
    (h : valueMembers? ms acc = some fields) (sorted : acc.IsSorted) :
    fields.IsSorted ∧ ∀ f ∈ fields, f ∈ acc ∨ ∃ m ∈ ms, m.2.value? = some f.2 := by
  induction ms generalizing acc with
  | nil =>
    cases h
    exact ⟨sorted, fun f mem => .inl mem⟩
  | cons m ms ih =>
    obtain ⟨label, t⟩ := m
    rw [valueMembers?] at h
    obtain ⟨name, -, h⟩ := Option.bind_eq_some_iff.1 h
    obtain ⟨v, denotes, h⟩ := Option.bind_eq_some_iff.1 h
    obtain ⟨sorted', each⟩ := ih h sorted.insert
    refine ⟨sorted', fun f mem => ?_⟩
    obtain mem | ⟨m, inside, value⟩ := each f mem
    · obtain rfl | mem := Fields.mem_insert mem
      · exact .inr ⟨_, List.mem_cons_self, denotes⟩
      · exact .inl mem
    · exact .inr ⟨m, List.mem_cons_of_mem _ inside, value⟩

/-- What a tree denotes, by what it is. -/
inductive Reads : Tree → Value → Prop where
  | null : Reads .null .null
  | bool (b : Bool) : Reads (.bool b) (.bool b)
  | integer (text : List Char) {n : Int} (range : Value.inRange n = true) :
      Reads (.number text) (.int n)
  | float (text : List Char) (x : Binary64) : Reads (.number text) (.float x)
  | string {text : List Char} {s : String} (decoded : string? text = some s) :
      Reads (.string text) (.string s)
  | array {ts : List Tree} {vs : List Value} (items : valueItems? ts = some vs) :
      Reads (.array ts) (.array vs)
  | object {ms : List (List Char × Tree)} {fields : Fields}
      (members : valueMembers? ms [] = some fields) : Reads (.object ms) (.object fields)

section

variable {t : Tree} {v : Value}

theorem reads_of_value? (h : t.value? = some v) : Reads t v := by
  cases t with
  | null =>
    cases h
    exact .null
  | bool b =>
    cases h
    exact .bool b
  | number text =>
    obtain ⟨n, rfl, range⟩ | ⟨x, rfl⟩ := number?_cases h
    · exact .integer text range
    · exact .float text x
  | string text =>
    obtain ⟨s, decoded, rfl⟩ := Option.map_eq_some_iff.1 h
    exact .string decoded
  | array ts =>
    obtain ⟨vs, items, rfl⟩ := Option.map_eq_some_iff.1 h
    exact .array items
  | object ms =>
    obtain ⟨fields, members, rfl⟩ := Option.map_eq_some_iff.1 h
    exact .object members

theorem Tree.value?_eq_string_iff {s : String} :
    t.value? = some (.string s) ↔ ∃ text, t = .string text ∧ string? text = some s := by
  constructor
  · intro h
    cases reads_of_value? h with
    | string decoded => exact ⟨_, rfl, decoded⟩
  · rintro ⟨text, rfl, decoded⟩
    rw [value?, decoded, Option.map_some]

theorem Tree.value?_eq_bool_iff {b : Bool} : t.value? = some (.bool b) ↔ t = .bool b := by
  constructor
  · intro h
    cases reads_of_value? h with
    | bool => rfl
  · rintro rfl
    rfl

theorem Tree.value?_eq_object_iff {fields : Fields} :
    t.value? = some (.object fields) ↔
      ∃ members, t = .object members ∧ valueMembers? members [] = some fields := by
  constructor
  · intro h
    cases reads_of_value? h with
    | object members => exact ⟨_, rfl, members⟩
  · rintro ⟨members, rfl, read⟩
    rw [value?, read, Option.map_some]

end

/-! ### Induction -/

/-- What holds of the leaves of a tree and is passed on by arrays and objects holds of the tree and
the value that it denotes. -/
theorem Tree.value?_induction {P : Tree → Value → Prop} (null : P .null .null)
    (bool : ∀ b, P (.bool b) (.bool b))
    (integer : ∀ text n, Value.inRange n = true → P (.number text) (.int n))
    (float : ∀ text x, P (.number text) (.float x))
    (string : ∀ text s, P (.string text) (.string s))
    (array : ∀ ts vs, (∀ v ∈ vs, ∃ t ∈ ts, P t v) → P (.array ts) (.array vs))
    (object : ∀ ms (fields : Fields), fields.IsSorted → (∀ f ∈ fields, ∃ m ∈ ms, P m.2 f.2) →
      P (.object ms) (.object fields))
    (t : Tree) {v : Value} (h : t.value? = some v) : P t v :=
  match t, v, reads_of_value? h with
  | _, _, .null => null
  | _, _, .bool b => bool b
  | _, _, .integer text range => integer text _ range
  | _, _, .float text x => float text x
  | _, _, .string _ => string _ _
  | .array ts, .array vs, .array items => by
    refine array ts vs fun v mem => ?_
    obtain ⟨t, inside, value⟩ := exists_of_valueItems? items v mem
    exact ⟨t, inside, value?_induction null bool integer float string array object t value⟩
  | .object ms, .object fields, .object members => by
    obtain ⟨sorted, each⟩ := exists_of_valueMembers? members List.Pairwise.nil
    refine object ms fields sorted fun f mem => ?_
    obtain ⟨⟨label, t⟩, inside, value⟩ := (each f mem).resolve_left List.not_mem_nil
    have smaller : sizeOf t < sizeOf ms := by
      have := List.sizeOf_lt_of_mem inside
      simp only [Prod.mk.sizeOf_spec] at this
      omega
    exact ⟨_, inside, value?_induction null bool integer float string array object t value⟩
termination_by t

variable {t : Tree} {v : Value}

theorem depth_le_of_value? (h : t.value? = some v) : v.depth ≤ t.depth := by
  refine Tree.value?_induction (P := fun t v => v.depth ≤ t.depth) (Nat.le_refl 0)
    (fun _ => Nat.le_refl 0) (fun _ _ _ => Nat.le_refl 0) (fun _ _ => Nat.le_refl 0)
    (fun _ _ => Nat.le_refl 0) (fun ts vs each => ?_) (fun ms fields _ each => ?_) t h
  · refine Nat.succ_le_succ (Value.depthItems_le_iff.2 fun v mem => ?_)
    obtain ⟨t, inside, le⟩ := each v mem
    exact le.trans (depth_le_depthItems inside)
  · refine Nat.succ_le_succ (Value.depthFields_le_iff.2 fun f mem => ?_)
    obtain ⟨m, inside, le⟩ := each f mem
    exact le.trans (depth_le_depthMembers inside)

theorem isExact_of_value? (h : t.value? = some v) (whole : v.IsWhole) : v.IsExact := by
  refine Tree.value?_induction (P := fun _ v => v.IsWhole → v.IsExact) (fun _ => .null)
    (fun b _ => .bool b) (fun _ n range _ => ?_) (fun _ x whole => ?_) (fun _ s _ => .string s)
    (fun ts vs each whole => ?_) (fun ms fields sorted each whole => ?_) t h whole
  · rw [Value.inRange, Bool.and_eq_true, decide_eq_true_eq, decide_eq_true_eq] at range
    exact .int (by omega) (by omega)
  · cases whole
  · cases whole with
    | array all =>
      refine .array fun v mem => ?_
      obtain ⟨t, -, item⟩ := each v mem
      exact item (all v mem)
  · cases whole with
    | object all =>
      refine .object sorted fun f mem => ?_
      obtain ⟨m, -, field⟩ := each f mem
      exact field (all f mem)

end Json

end HouseRules
