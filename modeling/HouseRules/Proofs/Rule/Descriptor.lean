import HouseRules.Proofs.Json.RoundTrip
import HouseRules.Rule.Descriptor

/-! Rules and their JSON texts. A text is read as a rule if it is an object that has each of the seven
fields once, or an array of their values. What is written for a rule is the one text that stands for
all of these: it is read as the rule again, and rules are the same if their texts are. -/

namespace HouseRules.Rule

open Json (Tree)

variable {r : Rule} {t : Tree} {ms : List (List Char × Tree)} {name : String}

/-! ### Fields -/

/-- The names of the fields of a rule. -/
def fieldNames : List String :=
  ["id", "description", "ruleset", "location", "function", "excluded", "parameters"]

theorem forall_fieldNames {P : String → Prop} : (∀ n ∈ fieldNames, P n) ↔
    P "id" ∧ P "description" ∧ P "ruleset" ∧ P "location" ∧ P "function" ∧ P "excluded" ∧
      P "parameters" := by
  simp [fieldNames]

/-- The fields of a rule in the order in which they are written. -/
def written (r : Rule) : Fields := [
  ("id", .string r.id),
  ("description", .string r.description),
  ("ruleset", .string r.ruleset),
  ("location", .string r.location),
  ("function", .string r.function),
  ("excluded", .bool r.excluded),
  ("parameters", .object r.parameters)]

/-- The text of a rule. -/
def text (r : Rule) : String := String.ofList r.write

theorem write_eq (r : Rule) : r.write = '\x7b' :: (Json.writeFields r.written ++ ['\x7d']) := rfl

theorem names_written (r : Rule) : r.written.names = fieldNames := rfl

theorem exact_of_mem_written (h : (Value.object r.parameters).IsExact) :
    ∀ f ∈ r.written, f.2.IsExact := by
  simp only [written, List.mem_cons, List.not_mem_nil, or_false, forall_eq_or_imp, forall_eq]
  exact ⟨.string _, .string _, .string _, .string _, .string _, .bool _, h⟩

/-- A tree denotes a value as a part of a rule. The rule itself counts for the depth. -/
def Denotes (v : Value) (t : Tree) : Prop := t.value? = some v ∧ t.depth + 1 ≤ depthLimit

theorem readString_eq_some_iff {s : String} : readString t = some s ↔ Denotes (.string s) t := by
  rw [Denotes, Tree.value?_eq_string_iff]
  constructor
  · intro h
    cases t with
    | string text => exact ⟨⟨text, rfl, h⟩, Nat.le_of_ble_eq_true rfl⟩
    | _ => cases h
  · rintro ⟨⟨text, rfl, decoded⟩, -⟩
    exact decoded

theorem readBool_eq_some_iff {b : Bool} : readBool t = some b ↔ Denotes (.bool b) t := by
  rw [Denotes, Tree.value?_eq_bool_iff]
  constructor
  · intro h
    cases t with
    | bool b' =>
      cases h
      exact ⟨rfl, Nat.le_of_ble_eq_true rfl⟩
    | _ => cases h
  · rintro ⟨rfl, -⟩
    rfl

theorem readParameters_eq_some_iff {fields : Fields} :
    readParameters t = some fields ↔ Denotes (.object fields) t := by
  rw [Denotes, Tree.value?_eq_object_iff]
  constructor
  · intro h
    cases t with
    | object members =>
      rw [readParameters] at h
      split at h
      · exact ⟨⟨members, rfl, h⟩, ‹_›⟩
      · cases h
    | _ => cases h
  · rintro ⟨⟨members, rfl, read⟩, shallow⟩
    rw [readParameters, if_pos shallow, read]

/-! ### Members -/

namespace Draft

variable {d d' : Draft}

/-- The tree of a field. -/
def get (d : Draft) (name : String) : Option Tree :=
  match name with
  | "id" => d.id
  | "description" => d.description
  | "ruleset" => d.ruleset
  | "location" => d.location
  | "function" => d.function
  | "excluded" => d.excluded
  | "parameters" => d.parameters
  | _ => none

/-- The trees of the members of a name. -/
def named (name : String) (ms : List (List Char × Tree)) : List Tree :=
  ms.filterMap fun m => if Json.string? m.1 = some name then some m.2 else none

theorem get_fields (d : Draft) : d.get "id" = d.id ∧ d.get "description" = d.description ∧
    d.get "ruleset" = d.ruleset ∧ d.get "location" = d.location ∧ d.get "function" = d.function ∧
    d.get "excluded" = d.excluded ∧ d.get "parameters" = d.parameters :=
  ⟨rfl, rfl, rfl, rfl, rfl, rfl, rfl⟩

theorem exists_get (g : String → Option Tree) : ∃ d : Draft, ∀ n ∈ fieldNames, d.get n = g n :=
  ⟨⟨g "id", g "description", g "ruleset", g "location", g "function", g "excluded",
    g "parameters"⟩, forall_fieldNames.2 (get_fields _)⟩

theorem ext_get (h : ∀ n ∈ fieldNames, d.get n = d'.get n) : d = d' := by
  obtain ⟨_, _, _, _, _, _, _⟩ := d
  obtain ⟨_, _, _, _, _, _, _⟩ := d'
  have each := forall_fieldNames.1 h
  simp only [get_fields] at each
  rwa [mk.injEq]

theorem once_eq_some_iff {old new : Option Tree} :
    once old t = some new ↔ old = none ∧ some t = new := by
  cases old with
  | none => simp [once]
  | some _ => simp [once]

/-- Setting a field is possible if it is not set, and leaves the others as they are. -/
theorem set_eq_some_iff : d.set name t = some d' ↔
    (name ∈ fieldNames → d.get name = none) ∧
      ∀ n ∈ fieldNames, (if name = n then some t else d.get n) = d'.get n := by
  obtain ⟨_, _, _, _, _, _, _⟩ := d
  obtain ⟨_, _, _, _, _, _, _⟩ := d'
  rw [set.eq_def, forall_fieldNames]
  split
  case h_8 id description ruleset location function excluded parameters =>
    have absent : name ∉ fieldNames := by
      simp only [fieldNames, List.mem_cons, List.not_mem_nil, or_false, not_or]
      exact ⟨id, description, ruleset, location, function, excluded, parameters⟩
    rw [if_neg id, if_neg description, if_neg ruleset, if_neg location, if_neg function,
      if_neg excluded, if_neg parameters, Option.some.injEq, mk.injEq]
    simp only [get_fields]
    exact ⟨fun same => ⟨fun mem => absurd mem absent, same⟩, fun both => both.2⟩
  all_goals
    simp only [Option.map_eq_some_iff, once_eq_some_iff, mk.injEq, ↓existsAndEq, and_true,
      fieldNames, List.mem_cons, String.reduceEq, List.not_mem_nil, or_self, or_false, or_true,
      get_fields, forall_const, ↓reduceIte]

theorem named_cons {label : List Char} (decoded : Json.string? label = some name) (n : String)
    (t : Tree) (ms : List (List Char × Tree)) :
    named n ((label, t) :: ms) = (if name = n then some t else none).toList ++ named n ms := by
  by_cases same : name = n
  · rw [named, List.filterMap_cons_some (by rw [decoded, same, if_pos rfl]), if_pos same]
    rfl
  · have other : some name ≠ some n := mt Option.some.inj same
    rw [named, List.filterMap_cons_none (by rw [decoded, if_neg other]), if_neg same]
    rfl

/-- A field that is given a tree by a member was not set before. -/
theorem eq_none_of_toList {old new : Option Tree} {rest : List Tree}
    (h : old.toList ++ ((some t).toList ++ rest) = new.toList) : old = none := by
  cases old with
  | none => rfl
  | some u => cases new <;> simp at h

/-- A field that is not set is set to the tree of a member, and others keep theirs. -/
theorem toList_set {n : String} (free : name = n → d.get n = none) (t : Tree) :
    (if name = n then some t else d.get n).toList =
      (d.get n).toList ++ (if name = n then some t else none).toList := by
  by_cases same : name = n
  · rw [if_pos same, if_pos same, free same]
    rfl
  · rw [if_neg same, if_neg same]
    exact (List.append_nil _).symm

/-- Members give a draft what it had and the trees of their names, each name once at most. -/
theorem ofMembers?_eq_some_iff : ofMembers? ms d = some d' ↔
    (∀ m ∈ ms, ∃ n, Json.string? m.1 = some n) ∧
      ∀ n ∈ fieldNames, (d.get n).toList ++ named n ms = (d'.get n).toList := by
  -- the members before those that are left are in the draft, so that is left open
  induction ms generalizing d with
  | nil =>
    rw [ofMembers?, Option.some.injEq]
    constructor
    · rintro rfl
      exact ⟨fun m mem => absurd mem List.not_mem_nil, fun n _ => List.append_nil _⟩
    · rintro ⟨-, same⟩
      refine ext_get fun n mem => ?_
      have lists : (d.get n).toList = (d'.get n).toList :=
        (List.append_nil _).symm.trans (same n mem)
      simpa using congrArg List.head? lists
  | cons m ms ih =>
    obtain ⟨label, t⟩ := m
    rw [ofMembers?, List.forall_mem_cons]
    constructor
    · intro h
      obtain ⟨name, decoded, h⟩ := Option.bind_eq_some_iff.1 h
      obtain ⟨d₁, added, h⟩ := Option.bind_eq_some_iff.1 h
      obtain ⟨free, others⟩ := set_eq_some_iff.1 added
      obtain ⟨labels, rest⟩ := ih.1 h
      refine ⟨⟨⟨name, decoded⟩, labels⟩, fun n mem => ?_⟩
      rw [← rest n mem, ← others n mem, toList_set fun same => same ▸ free (same ▸ mem),
        named_cons decoded, List.append_assoc]
    · rintro ⟨⟨⟨name, decoded⟩, labels⟩, whole⟩
      have free (n : String) (mem : n ∈ fieldNames) (same : name = n) : d.get n = none := by
        have once := whole n mem
        rw [named_cons decoded, if_pos same] at once
        exact eq_none_of_toList once
      obtain ⟨d₁, get₁⟩ := exists_get fun n => if name = n then some t else d.get n
      have added : d.set name t = some d₁ :=
        set_eq_some_iff.2 ⟨fun mem => free name mem rfl, fun n mem => (get₁ n mem).symm⟩
      refine Option.bind_eq_some_iff.2 ⟨name, decoded, Option.bind_eq_some_iff.2
        ⟨d₁, added, ih.2 ⟨labels, fun n mem => ?_⟩⟩⟩
      rw [← whole n mem, get₁ n mem, toList_set (free n mem), named_cons decoded,
        List.append_assoc]

/-- Where a field has part in a result, it has a tree, and the tree a value. -/
theorem exists_value {α β : Type} {field : Option Tree} {value? : Tree → Option α} {k : α → Option β}
    {b : β} (h : (do k (← value? (← field))) = some b) :
    ∃ v, (∃ t, field = some t ∧ value? t = some v) ∧ k v = some b := by
  obtain ⟨t, known, h⟩ := Option.bind_eq_some_iff.1 h
  obtain ⟨v, value, h⟩ := Option.bind_eq_some_iff.1 h
  exact ⟨v, ⟨t, known, value⟩, h⟩

/-- The rule of a draft has the values that the trees of its fields denote. -/
theorem ofDraft?_eq_some_iff :
    ofDraft? d = some r ↔ ∀ f ∈ r.written, ∃ t, d.get f.1 = some t ∧ Denotes f.2 t := by
  simp only [written, List.forall_mem_cons, ← readString_eq_some_iff, ← readBool_eq_some_iff,
    ← readParameters_eq_some_iff, -existsAndEq]
  constructor
  · intro h
    obtain ⟨_, id, h⟩ := exists_value h
    obtain ⟨_, description, h⟩ := exists_value h
    obtain ⟨_, ruleset, h⟩ := exists_value h
    obtain ⟨_, location, h⟩ := exists_value h
    obtain ⟨_, function, h⟩ := exists_value h
    obtain ⟨_, excluded, h⟩ := exists_value h
    obtain ⟨_, parameters, h⟩ := exists_value h
    cases h
    exact ⟨id, description, ruleset, location, function, excluded, parameters, List.forall_mem_nil _⟩
  · rintro ⟨⟨t₁, id, readId⟩, ⟨t₂, description, readDescription⟩, ⟨t₃, ruleset, readRuleset⟩,
      ⟨t₄, location, readLocation⟩, ⟨t₅, function, readFunction⟩, ⟨t₆, excluded, readExcluded⟩,
      ⟨t₇, parameters, readParameters⟩, -⟩
    simp only [get_fields] at id description ruleset location function excluded parameters
    simp only [ofDraft?, id, readId, description, readDescription, ruleset, readRuleset, location,
      readLocation, function, readFunction, excluded, readExcluded, parameters, readParameters,
      Option.bind_eq_bind, Option.bind_some, Option.pure_def]

end Draft

/-! ### Trees of a rule -/

/-- A tree stands for a rule: an object whose members give each field once, in any order and with
members of other names between them, or an array of the values of the fields in order. -/
def IsTreeOf (r : Rule) : Tree → Prop
  | .object ms => (∀ m ∈ ms, ∃ name, Json.string? m.1 = some name) ∧
      ∀ f ∈ r.written, ∃ t, Draft.named f.1 ms = [t] ∧ Denotes f.2 t
  | .array ts => List.Forall₂ (fun f t => Denotes f.2 t) r.written ts
  | _ => False

theorem ofDraft?_ofMembers?_iff :
    (Draft.ofMembers? ms .empty).bind ofDraft? = some r ↔ IsTreeOf r (.object ms) := by
  have empty : ∀ n ∈ fieldNames, Draft.empty.get n = none :=
    forall_fieldNames.2 (Draft.get_fields .empty)
  have known {f : String × Value} (mem : f ∈ r.written) : f.1 ∈ fieldNames :=
    names_written r ▸ List.mem_map_of_mem mem
  rw [Option.bind_eq_some_iff]
  constructor
  · rintro ⟨d, read, made⟩
    obtain ⟨labels, whole⟩ := Draft.ofMembers?_eq_some_iff.1 read
    refine ⟨labels, fun f mem => ?_⟩
    obtain ⟨t, found, denotes⟩ := Draft.ofDraft?_eq_some_iff.1 made f mem
    refine ⟨t, ?_, denotes⟩
    have once := whole f.1 (known mem)
    rwa [empty f.1 (known mem), found] at once
  · rintro ⟨labels, each⟩
    obtain ⟨d, get⟩ := Draft.exists_get fun n => (Draft.named n ms).head?
    refine ⟨d, Draft.ofMembers?_eq_some_iff.2 ⟨labels, fun n mem => ?_⟩,
      Draft.ofDraft?_eq_some_iff.2 fun f mem => ?_⟩
    · obtain ⟨f, inside, rfl⟩ := List.mem_map.1 (names_written r ▸ mem)
      obtain ⟨t, once, -⟩ := each f inside
      rw [empty f.1 mem, get f.1 mem, once]
      rfl
    · obtain ⟨t, once, denotes⟩ := each f mem
      exact ⟨t, by rw [get f.1 (known mem), once]; rfl, denotes⟩

theorem ofDraft?_items_iff {id description ruleset location function excluded parameters : Tree} :
    ofDraft? ⟨some id, some description, some ruleset, some location, some function, some excluded,
      some parameters⟩ = some r ↔ IsTreeOf r (.array
        [id, description, ruleset, location, function, excluded, parameters]) := by
  rw [Draft.ofDraft?_eq_some_iff]
  simp only [written, IsTreeOf, List.forall_mem_cons, List.not_mem_nil, false_implies, implies_true,
    and_true, Draft.get_fields, Option.some.injEq, exists_eq_left', List.forall₂_cons, List.Forall₂.nil]

/-- What is read from a tree is the rule that the tree stands for. -/
theorem ofTree?_eq_some_iff : ofTree? t = some r ↔ IsTreeOf r t := by
  fun_cases ofTree? t with
  | case1 ms => exact ofDraft?_ofMembers?_iff
  | case2 => exact ofDraft?_items_iff
  | case3 t noObject noSeven =>
    refine iff_of_false (fun h => by cases h) fun h => ?_
    cases t with
    | object ms => exact noObject ms rfl
    | array ts =>
      simp only [IsTreeOf, written, List.forall₂_cons_left_iff, List.forall₂_nil_left_iff] at h
      obtain ⟨_, _, -, ⟨_, _, -, ⟨_, _, -, ⟨_, _, -, ⟨_, _, -, ⟨_, _, -, ⟨_, _, -, rfl, rfl⟩, rfl⟩,
        rfl⟩, rfl⟩, rfl⟩, rfl⟩, rfl⟩ := h
      exact noSeven _ _ _ _ _ _ _ rfl
    | _ => exact h

theorem read?_eq_some_iff {s : String} :
    read? s = some r ↔ ∃ t, Tree.read? s.toList = some t ∧ IsTreeOf r t := by
  rw [read?, Option.bind_eq_some_iff]
  simp only [ofTree?_eq_some_iff]

/-- The parameters of a rule are denoted by a tree in that of the rule. -/
theorem IsTreeOf.exists_parameters (h : IsTreeOf r t) :
    ∃ u, Denotes (.object r.parameters) u := by
  cases t with
  | object ms =>
    obtain ⟨u, -, denotes⟩ := h.2 ("parameters", .object r.parameters) (by simp [written])
    exact ⟨u, denotes⟩
  | array ts =>
    simp only [IsTreeOf, written, List.forall₂_cons_left_iff] at h
    obtain ⟨_, _, -, ⟨_, _, -, ⟨_, _, -, ⟨_, _, -, ⟨_, _, -, ⟨_, _, -, ⟨u, _, denotes, -⟩, -⟩, -⟩,
      -⟩, -⟩, -⟩, -⟩ := h
    exact ⟨u, denotes⟩
  | _ => cases h

/-- The parameters of a rule that is read are exact unless there is a floating point number among
them, and not deeper than a text may be. -/
theorem IsTreeOf.parameters (h : IsTreeOf r t) (whole : (Value.object r.parameters).IsWhole) :
    (Value.object r.parameters).IsExact ∧ (Value.object r.parameters).depth + 1 ≤ depthLimit := by
  obtain ⟨u, value, shallow⟩ := h.exists_parameters
  exact ⟨Json.isExact_of_value? value whole,
    (Nat.succ_le_succ (Json.depth_le_of_value? value)).trans shallow⟩

/-! ### Texts of rules -/

namespace Draft

variable {fields : Fields}

theorem named_of_not_mem (each : List.Forall₂ Json.SpellsField fields ms)
    (absent : name ∉ fields.names) : named name ms = [] := by
  induction each with
  | nil => rfl
  | @cons f m fields ms member each ih =>
    obtain ⟨other, missing⟩ := not_or.1 (mt List.mem_cons.2 absent)
    obtain ⟨label, t⟩ := m
    obtain ⟨rfl, -⟩ := member
    rw [named_cons (Json.string?_spelled f.1), if_neg (Ne.symm other), ih missing]
    rfl

theorem labels_of_spells (each : List.Forall₂ Json.SpellsField fields ms) :
    ∀ m ∈ ms, ∃ n, Json.string? m.1 = some n := by
  induction each with
  | nil => exact fun m mem => absurd mem List.not_mem_nil
  | cons member each ih =>
    exact List.forall_mem_cons.2 ⟨⟨_, member.1 ▸ Json.string?_spelled _⟩, ih⟩

/-- Members that spell fields of different names give each name one tree. -/
theorem named_of_spells
    (each : List.Forall₂ (fun f m => Json.SpellsField f m ∧ m.2.depth = f.2.depth) fields ms)
    (nodup : fields.names.Nodup) :
    ∀ f ∈ fields, ∃ t, named f.1 ms = [t] ∧ t.value? = some f.2 ∧ t.depth = f.2.depth := by
  induction each with
  | nil => exact fun f mem => absurd mem List.not_mem_nil
  | @cons g m fields ms member each ih =>
    obtain ⟨absent, nodup⟩ := List.nodup_cons.1 nodup
    obtain ⟨label, t⟩ := m
    obtain ⟨⟨rfl, spells⟩, depth⟩ := member
    intro f mem
    rw [named_cons (Json.string?_spelled g.1)]
    obtain rfl | mem := List.mem_cons.1 mem
    · refine ⟨t, ?_, spells.value, depth⟩
      rw [if_pos rfl, named_of_not_mem (each.imp fun _ _ both => both.1) absent]
      rfl
    · have other : g.1 ≠ f.1 := fun same => absent (same ▸ List.mem_map_of_mem mem)
      rw [if_neg other]
      exact ih nodup f mem

end Draft

/-- The text of a rule is read as an object of which each field has one tree, as deep as its
value. -/
theorem exists_tree_text (exact : (Value.object r.parameters).IsExact) :
    ∃ ms, Tree.read? r.text.toList = some (.object ms) ∧
      (∀ m ∈ ms, ∃ name, Json.string? m.1 = some name) ∧
      ∀ f ∈ r.written, ∃ t, Draft.named f.1 ms = [t] ∧ t.value? = some f.2 ∧
        t.depth = f.2.depth := by
  obtain ⟨ms, each⟩ := Json.exists_spellsFields (exact_of_mem_written exact)
  have spells := each.imp fun _ _ both => both.1
  refine ⟨ms, ?_, Draft.labels_of_spells spells,
    Draft.named_of_spells each (names_written r ▸ by decide)⟩
  rw [text, String.toList_ofList, write_eq, Json.Tree.read?_writeFields spells]

theorem depth_le_of_mem_written :
    ∀ f ∈ r.written, f.2.depth ≤ (Value.object r.parameters).depth := by
  simp [written, Value.depth]

/-- A rule is read back from its text exactly when its parameters are not too deep. -/
theorem read?_text_iff (exact : (Value.object r.parameters).IsExact) :
    read? r.text = some r ↔ (Value.object r.parameters).depth + 1 ≤ depthLimit := by
  obtain ⟨ms, read, labels, each⟩ := exists_tree_text exact
  rw [read?_eq_some_iff]
  constructor
  · rintro ⟨t, read', stands⟩
    cases read.symm.trans read'
    have mem : ("parameters", .object r.parameters) ∈ r.written := by simp [written]
    obtain ⟨t, once, -, depth⟩ := each _ mem
    obtain ⟨u, once', -, shallow⟩ := stands.2 _ mem
    cases once.symm.trans once'
    rwa [depth] at shallow
  · refine fun shallow => ⟨_, read, labels, fun f mem => ?_⟩
    obtain ⟨t, once, value, depth⟩ := each f mem
    refine ⟨t, once, value, (Nat.succ_le_succ ?_).trans shallow⟩
    exact depth ▸ depth_le_of_mem_written f mem

/-- The array of the values of its fields is read as a rule. -/
theorem read?_values (exact : (Value.object r.parameters).IsExact)
    (shallow : (Value.object r.parameters).depth + 1 ≤ depthLimit) :
    read? (Json.text (.array (r.written.map Prod.snd))) = some r := by
  have items : ∀ v ∈ r.written.map Prod.snd, v.IsExact :=
    List.forall_mem_map.2 (exact_of_mem_written exact)
  have tree (f : String × Value) (mem : f ∈ r.written) :
      ∃ t, Json.Spells f.2 t ∧ Denotes f.2 t := by
    obtain ⟨t, spells, depth⟩ := Json.exists_spells (exact_of_mem_written exact f mem)
    refine ⟨t, spells, spells.value, (Nat.succ_le_succ ?_).trans shallow⟩
    exact depth ▸ depth_le_of_mem_written f mem
  obtain ⟨ts, each⟩ := Json.exists_forall₂ tree
  have spells := Json.Spells.array items
    (List.forall₂_map_left_iff.2 (each.imp fun _ _ both => both.1))
  refine read?_eq_some_iff.2 ⟨.array ts, ?_, each.imp fun _ _ both => both.2⟩
  rw [Json.text, String.toList_ofList, spells.tree_read?]

/-- What is written for a rule that was read is read as the rule. -/
theorem read?_text_of_read? {s : String} (h : read? s = some r)
    (whole : (Value.object r.parameters).IsWhole) : read? r.text = some r := by
  obtain ⟨t, -, stands⟩ := read?_eq_some_iff.1 h
  obtain ⟨exact, shallow⟩ := stands.parameters whole
  exact (read?_text_iff exact).2 shallow

/-- A rule is read back from its text unless its parameters are too deep. What is read as a rule is
known, and if there is no floating point number in its parameters, the text of the rule is read as
the rule and written back as it is. So two texts stand for one rule exactly when one text is written
for both. -/
theorem text_canonical :
    (∀ r : Rule, (Value.object r.parameters).IsExact →
      (read? r.text = some r ↔ (Value.object r.parameters).depth + 1 ≤ depthLimit)) ∧
    (∀ (s : String) (r : Rule),
      read? s = some r ↔ ∃ t, Tree.read? s.toList = some t ∧ IsTreeOf r t) ∧
    (∀ (s : String) (r : Rule), read? s = some r → (Value.object r.parameters).IsWhole →
      read? r.text = some r ∧ (read? r.text).map text = some r.text) ∧
    ∀ (s s' : String) (r r' : Rule), read? s = some r → read? s' = some r' →
      (Value.object r.parameters).IsWhole → (Value.object r'.parameters).IsWhole →
      (r = r' ↔ r.text = r'.text) := by
  refine ⟨fun r exact => read?_text_iff exact, fun s r => read?_eq_some_iff,
    fun s r read whole => ?_, fun s s' r r' read read' whole whole' => ⟨congrArg text, fun same => ?_⟩⟩
  · have back := read?_text_of_read? read whole
    exact ⟨back, by rw [back, Option.map_some]⟩
  · have back := read?_text_of_read? read whole
    rw [same, read?_text_of_read? read' whole'] at back
    exact (Option.some.inj back).symm

theorem text_ne_array (r : Rule) (vs : List Value) : Json.text (.array vs) ≠ r.text := by
  intro same
  have first := congrArg (fun s : String => s.toList.head?) same
  simp [Json.text, Json.write, text, write_eq] at first

/-- A rule whose parameters have the greatest integer and a quote. -/
def sampleRule : Rule :=
  ⟨"r", "", "a", "/a.py", "f", false,
    [("limit", .int 18446744073709551615), ("text", .array [.string "\"\n", .null])]⟩

theorem isExact_sampleRule : (Value.object sampleRule.parameters).IsExact := by
  have text : (Value.array [.string "\"\n", .null]).IsExact :=
    .array (List.forall_mem_cons.2 ⟨.string _, List.forall_mem_singleton.2 .null⟩)
  exact .object (List.pairwise_pair.2 (by decide)) (List.forall_mem_cons.2
    ⟨.int (by decide) (by decide), List.forall_mem_singleton.2 text⟩)

/-- The array of the values of a rule is another text for it. -/
theorem text_canonical_sampleRule :
    let s := Json.text (.array (sampleRule.written.map Prod.snd))
    read? s = some sampleRule ∧ s ≠ sampleRule.text ∧ read? sampleRule.text = some sampleRule ∧
      (read? sampleRule.text).map text = some sampleRule.text := by
  intro s
  have read : read? s = some sampleRule :=
    read?_values isExact_sampleRule (by simp [sampleRule, Value.depth, Value.depthFields,
      Value.depthItems, depthLimit])
  exact ⟨read, text_ne_array sampleRule _,
    text_canonical.2.2.1 s sampleRule read isExact_sampleRule.isWhole⟩

end HouseRules.Rule
