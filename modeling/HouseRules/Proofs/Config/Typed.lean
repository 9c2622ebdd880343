import HouseRules.Config.Typed
import HouseRules.Proofs.Value.Paths

/-! What the typed configuration is read from: each of its fields is the value that the settings
hold for it, by name in a table and by position in an array. -/

namespace HouseRules.Config

open Value (atPath? isTable merge mergeFields)

/-! ### Values that can be stored -/

section

variable {v : Value} {fields : Fields}

theorem storableItems_eq_map (vs : List Value) : storableItems vs = vs.map storable := by
  induction vs with
  | nil => rfl
  | cons v vs ih => rw [storableItems, ih, List.map_cons]

theorem storableFields_eq_map (fields : Fields) :
    storableFields fields = fields.map fun f => (f.1, storable f.2) := by
  induction fields with
  | nil => rfl
  | cons f fields ih => rw [storableFields, ih, List.map_cons]

@[simp] theorem isTable_storable (v : Value) : (storable v).isTable = v.isTable := by
  cases v with
  | float x =>
    rw [storable]
    split <;> rfl
  | _ => rfl

theorem get?_storableFields (k : String) (fields : Fields) :
    Fields.get? k (storableFields fields) = (Fields.get? k fields).map storable := by
  induction fields with
  | nil => rfl
  | cons f fields ih =>
    obtain ⟨n, v⟩ := f
    rw [storableFields, Fields.get?, Fields.get?]
    split
    · rfl
    · exact ih

theorem storable_isOrdered (h : v.IsOrdered) : (storable v).IsOrdered := by
  induction h with
  | null => exact .null
  | bool b => exact .bool b
  | int n => exact .int n
  | float x =>
    rw [storable]
    split
    · exact .float x
    · exact .null
  | string s => exact .string s
  | array _ ih =>
    rw [storable, storableItems_eq_map]
    exact .array fun w mem => by
      obtain ⟨v, inside, rfl⟩ := List.mem_map.1 mem
      exact ih v inside
  | object sorted _ ih =>
    rw [storable, storableFields_eq_map]
    refine .object (List.pairwise_map.2 sorted) fun f mem => ?_
    obtain ⟨g, inside, rfl⟩ := List.mem_map.1 mem
    exact ih g inside

theorem storableFields_insert (k : String) (v : Value) (fields : Fields) :
    storableFields (Fields.insert k v fields) =
      Fields.insert k (storable v) (storableFields fields) := by
  induction fields with
  | nil => rfl
  | cons f fields ih =>
    obtain ⟨n, w⟩ := f
    simp only [Fields.insert, storableFields]
    split
    · rfl
    split
    · rfl
    · rw [storableFields, ih]

theorem storableFields_mergeFields {new : Fields}
    (each : ∀ f ∈ new, ∀ a, storable (merge a f.2) = merge (storable a) (storable f.2))
    (old : Fields) :
    storableFields (mergeFields old new) =
      mergeFields (storableFields old) (storableFields new) := by
  induction new generalizing old with
  | nil => rw [storableFields, mergeFields, mergeFields]
  | cons f rest ih =>
    obtain ⟨k, v⟩ := f
    obtain ⟨first, rest⟩ := List.forall_mem_cons.1 each
    rw [mergeFields, storableFields, mergeFields, ih rest, storableFields_insert,
      get?_storableFields]
    cases Fields.get? k old with
    | none => rfl
    | some w => exact congrArg (fun x => mergeFields (Fields.insert k x _) _) (first w)

/-- Merging values and then storing them is merging what is stored of them. -/
theorem storable_merge {a b : Value} (hb : b.IsOrdered) :
    storable (merge a b) = merge (storable a) (storable b) := by
  induction hb generalizing a with
  | object sorted each ih =>
    cases table : a.isTable with
    | true =>
      obtain ⟨old, rfl⟩ := Value.exists_of_isTable table
      rw [merge, storable, storable, storable, merge,
        storableFields_mergeFields fun f mem a => ih f mem]
    | false =>
      rw [Value.merge_of_not_isTable (.inl table), Value.merge_of_not_isTable]
      exact .inl (by rw [isTable_storable, table])
  | _ =>
    rw [Value.merge_of_not_isTable (.inr rfl), Value.merge_of_not_isTable]
    exact .inr (isTable_storable _)

theorem storable_foldl_merge {layers : List Value} (ordered : ∀ l ∈ layers, l.IsOrdered)
    (base : Value) :
    storable (layers.foldl merge base) = (layers.map storable).foldl merge (storable base) := by
  induction layers generalizing base with
  | nil => rfl
  | cons l layers ih =>
    obtain ⟨first, rest⟩ := List.forall_mem_cons.1 ordered
    rw [List.foldl_cons, List.map_cons, List.foldl_cons, ih rest, storable_merge first]

end

/-! ### Fields -/

/-- A field of the configuration: its section, its name and position there, its default, and the
value that it is read from. -/
structure Field where
  part : String
  name : String
  position : Nat
  default : Value
  value : Value

/-- Texts as a value. -/
def ofStrings (xs : List String) : Value := .array (xs.map .string)

/-- A path that may be missing as a value. -/
def ofPath? : Option String → Value
  | none => .null
  | some s => .string s

/-- The fields of a configuration other than the metadata. -/
def fields (c : Config) : List Field := [
  ⟨"rules", "source", 0, .array [], ofStrings c.rules.sources⟩,
  ⟨"rules", "exclude", 1, .array [], ofStrings c.rules.exclude⟩,
  ⟨"rules", "include", 2, .array [], ofStrings c.rules.reinstate⟩,
  ⟨"paths", "config_root", 0, .null, ofPath? c.configRoot⟩,
  ⟨"execution", "python", 0, .string "python3", .string c.python⟩,
  ⟨"execution", "timeout_secs", 1, .int 600, .int c.timeoutSecs⟩,
  ⟨"logging", "level", 0, .string "info", .string c.logLevel⟩,
  ⟨"logging", "json_format", 1, .bool false, .bool c.logJson⟩,
  ⟨"logging", "file_output", 2, .null, ofPath? c.logFile⟩]

/-- What settings hold for a field: in a section that is an array the item at its position, and
else the value at its path; the default if there is none. -/
def Field.held (f : Field) (settings : Value) : Value :=
  match settings.atPath? [f.part] with
  | some (.array items) => items[f.position]?.getD f.default
  | _ => (settings.atPath? [f.part, f.name]).getD f.default

/-- The defaults are those that the settings start from. -/
theorem atPath?_defaults (c : Config) :
    ∀ f ∈ c.fields, (Value.object defaults).atPath? [f.part, f.name] = some f.default := by
  simp only [fields, List.forall_mem_cons]
  exact ⟨rfl, rfl, rfl, rfl, rfl, rfl, rfl, rfl, rfl, nofun⟩

section

variable {settings : Fields} {c : Config}

/-- A field that is read has the value that the settings hold for it, if what is read of a value
is what is stored of it. -/
theorem held_of_member {α : Type} {read : Value → Option α} (encode : α → Value)
    (stored : ∀ v x, read v = some x → storable v = encode x) {part name : String}
    {position : Nat} {default x : α} {found : Option Value}
    (member : member? ((Fields.get? part settings).getD (.object [])) name position = some found)
    (h : readOr default read found = some x) :
    (Field.mk part name position (encode default) (encode x)).held
      (.object (storableFields settings)) = encode x := by
  have outer : (Value.object (storableFields settings)).atPath? [part] =
      (Fields.get? part settings).map storable := by
    rw [Value.atPath?_singleton, get?_storableFields]
  have inner : (Value.object (storableFields settings)).atPath? [part, name] =
      ((Fields.get? part settings).map storable).bind (atPath? [name]) := by
    rw [atPath?, get?_storableFields]
  have value {w : Option Value} (hw : readOr default read w = some x) :
      (w.map storable).getD (encode default) = encode x := by
    cases w with
    | none =>
      cases hw
      rfl
    | some v => exact stored v x hw
  rw [Field.held]
  simp only [outer, inner]
  cases hpart : Fields.get? part settings with
  | none =>
    rw [hpart] at member
    cases member
    exact value h
  | some v =>
    rw [hpart, Option.getD_some] at member
    rw [Option.map_some, Option.bind_some]
    cases v with
    | object fs =>
      cases member
      rw [storable]
      simp only [Value.atPath?_singleton, get?_storableFields]
      exact value h
    | array items =>
      cases member
      rw [storable]
      simp only [storableItems_eq_map, List.getElem?_map]
      exact value h
    | _ => cases member

theorem eq_of_mapM_string? {items : List Value} {xs : List String}
    (h : items.mapM Value.string? = some xs) : items = xs.map .string := by
  induction items generalizing xs with
  | nil =>
    cases h
    rfl
  | cons v items ih =>
    rw [List.mapM_cons] at h
    obtain ⟨x, first, h⟩ := Option.bind_eq_some_iff.1 h
    obtain ⟨rest, later, same⟩ := Option.bind_eq_some_iff.1 h
    cases same
    cases v with
    | string s =>
      cases first
      rw [List.map_cons, ← ih later]
    | _ => cases first

theorem storable_of_strings? (v : Value) (xs : List String) (h : v.strings? = some xs) :
    storable v = ofStrings xs := by
  cases v with
  | array items =>
    rw [storable, storableItems_eq_map, ofStrings, eq_of_mapM_string? h, List.map_map]
    rfl
  | _ => cases h

theorem storable_of_path? (v : Value) (x : Option String) (h : path? v = some x) :
    storable v = ofPath? x := by
  cases v with
  | null =>
    cases h
    rfl
  | string s =>
    cases h
    rfl
  | _ => cases h

theorem storable_of_string? (v : Value) (x : String) (h : v.string? = some x) :
    storable v = .string x := by
  cases v with
  | string s =>
    cases h
    rfl
  | _ => cases h

theorem storable_of_bool? (v : Value) (x : Bool) (h : bool? v = some x) :
    storable v = .bool x := by
  cases v with
  | bool b =>
    cases h
    rfl
  | _ => cases h

theorem storable_of_natural? (v : Value) (x : Nat) (h : natural? v = some x) :
    storable v = .int x := by
  cases v with
  | int n =>
    rw [natural?] at h
    split at h
    · rename_i nonneg
      cases h
      exact congrArg Value.int (Int.toNat_of_nonneg nonneg).symm
    · cases h
  | _ => cases h

theorem held_of_rules? {r : RuleSettings}
    (h : rules? ((Fields.get? "rules" settings).getD (.object [])) = some r) :
    (Field.mk "rules" "source" 0 (.array []) (ofStrings r.sources)).held
        (.object (storableFields settings)) = ofStrings r.sources ∧
      (Field.mk "rules" "exclude" 1 (.array []) (ofStrings r.exclude)).held
        (.object (storableFields settings)) = ofStrings r.exclude ∧
      (Field.mk "rules" "include" 2 (.array []) (ofStrings r.reinstate)).held
        (.object (storableFields settings)) = ofStrings r.reinstate := by
  obtain ⟨sources, hsources, h⟩ := Option.bind_eq_some_iff.1 h
  obtain ⟨exclude, hexclude, h⟩ := Option.bind_eq_some_iff.1 h
  obtain ⟨reinstate, hreinstate, same⟩ := Option.bind_eq_some_iff.1 h
  cases same
  have list {name : String} {position : Nat} {xs : List String}
      (h : ((member? ((Fields.get? "rules" settings).getD (.object [])) name position).bind
        (readOr [] Value.strings?)) = some xs) :
      (Field.mk "rules" name position (.array []) (ofStrings xs)).held
        (.object (storableFields settings)) = ofStrings xs := by
    obtain ⟨found, member, read⟩ := Option.bind_eq_some_iff.1 h
    exact held_of_member ofStrings storable_of_strings? member read
  exact ⟨list hsources, list hexclude, list hreinstate⟩

theorem atPath?_meta {metadata : Fields}
    (h : metadata? ((Fields.get? "meta" settings).getD (.object [])) = some metadata) :
    ((Value.object (storableFields settings)).atPath? ["meta"]).getD (.object []) =
      .object metadata := by
  rw [Value.atPath?_singleton, get?_storableFields]
  cases hpart : Fields.get? "meta" settings with
  | none =>
    rw [hpart] at h
    cases h
    rfl
  | some v =>
    rw [hpart, Option.getD_some] at h
    cases v with
    | object fs =>
      cases h
      rw [Option.map_some, Option.getD_some, storable]
    | _ => cases h

/-- A configuration has for each field what the settings hold for it, and their metadata. -/
theorem held_of_read? (h : read? settings = some c) :
    (∀ f ∈ c.fields, f.held (.object (storableFields settings)) = f.value) ∧
      ((Value.object (storableFields settings)).atPath? ["meta"]).getD (.object []) =
        .object c.metadata := by
  obtain ⟨rules, hrules, h⟩ := Option.bind_eq_some_iff.1 h
  obtain ⟨m₁, hm₁, h⟩ := Option.bind_eq_some_iff.1 h
  obtain ⟨root, hroot, h⟩ := Option.bind_eq_some_iff.1 h
  obtain ⟨m₂, hm₂, h⟩ := Option.bind_eq_some_iff.1 h
  obtain ⟨python, hpython, h⟩ := Option.bind_eq_some_iff.1 h
  obtain ⟨m₃, hm₃, h⟩ := Option.bind_eq_some_iff.1 h
  obtain ⟨timeout, htimeout, h⟩ := Option.bind_eq_some_iff.1 h
  obtain ⟨m₄, hm₄, h⟩ := Option.bind_eq_some_iff.1 h
  obtain ⟨level, hlevel, h⟩ := Option.bind_eq_some_iff.1 h
  obtain ⟨m₅, hm₅, h⟩ := Option.bind_eq_some_iff.1 h
  obtain ⟨json, hjson, h⟩ := Option.bind_eq_some_iff.1 h
  obtain ⟨m₆, hm₆, h⟩ := Option.bind_eq_some_iff.1 h
  obtain ⟨file, hfile, h⟩ := Option.bind_eq_some_iff.1 h
  obtain ⟨metadata, hmetadata, same⟩ := Option.bind_eq_some_iff.1 h
  cases same
  obtain ⟨sources, exclude, reinstate⟩ := held_of_rules? hrules
  constructor
  · simp only [fields, List.forall_mem_cons]
    refine ⟨sources, exclude, reinstate, ?_, ?_, ?_, ?_, ?_, ?_, nofun⟩
    · exact held_of_member ofPath? storable_of_path? hm₁ hroot
    · exact held_of_member Value.string storable_of_string? hm₂ hpython
    · exact held_of_member (fun n : Nat => Value.int n) storable_of_natural? hm₃ htimeout
    · exact held_of_member Value.string storable_of_string? hm₄ hlevel
    · exact held_of_member Value.bool storable_of_bool? hm₅ hjson
    · exact held_of_member ofPath? storable_of_path? hm₆ hfile
  · exact atPath?_meta hmetadata

end

end HouseRules.Config
