import HouseRules.Proofs.Except.Traversal
import HouseRules.Proofs.Text.ByteOrder
import HouseRules.Proofs.Value.Fields
import HouseRules.Rule.Arguments

/-! The arguments of a rule. They are there exactly when every setting that a default asks for is
found, the first one that is not found is reported, and they have the names of the parameters, no
more and no fewer. -/

namespace HouseRules.Rule

/-- A parameter asks for the setting at a path. -/
def Asks (r : Rule) (name path : String) : Prop :=
  (name, Value.string ("settings:" ++ path)) ∈ r.parameters

/-- The value that a parameter is given for its default. -/
inductive Given (context : ProjectContext) : String → Value → Value → Prop
  | workingDir {default} : Given context "project_dir" default (.string context.workingDir)
  | metadata {default} : Given context "meta" default (.object context.metadata)
  | setting {name path value} : name ≠ "project_dir" → name ≠ "meta" →
      context.settings.lookup? path = some value →
      Given context name (.string ("settings:" ++ path)) value
  | declared {name default} : name ≠ "project_dir" → name ≠ "meta" →
      (∀ path, default ≠ .string ("settings:" ++ path)) → Given context name default default

variable {r : Rule} {context : ProjectContext} {name path : String} {default value : Value}
  {arguments : Fields} {e : Error}

/-! ### One parameter -/

theorem settingPath?_eq_some_iff :
    settingPath? default = some path ↔ default = .string ("settings:" ++ path) := by
  cases default with
  | string s => rw [settingPath?, Text.dropStart?_eq_some_iff, Value.string.injEq]
  | _ => simp [settingPath?]

theorem settingPath?_eq_none_iff :
    settingPath? default = none ↔ ∀ path, default ≠ .string ("settings:" ++ path) := by
  simp only [Option.eq_none_iff_forall_ne_some, ne_eq, settingPath?_eq_some_iff]

theorem resolveDefault_of_found (found : context.settings.lookup? path = some value) :
    r.resolveDefault context (.string ("settings:" ++ path)) = .ok value := by
  simp only [resolveDefault, settingPath?_eq_some_iff.2 rfl, found]

theorem resolveDefault_of_missing (missing : context.settings.lookup? path = none) :
    r.resolveDefault context (.string ("settings:" ++ path)) =
      .error (.settingNotFound path r.id) := by
  simp only [resolveDefault, settingPath?_eq_some_iff.2 rfl, missing]

theorem resolveDefault_of_plain (h : ∀ path, default ≠ .string ("settings:" ++ path)) :
    r.resolveDefault context default = .ok default := by
  rw [resolveDefault, settingPath?_eq_none_iff.2 h]

theorem resolveDefault_eq_ok (h : r.resolveDefault context default = .ok value) :
    (∃ path, default = .string ("settings:" ++ path) ∧
      context.settings.lookup? path = some value) ∨
    (∀ path, default ≠ .string ("settings:" ++ path)) ∧ value = default := by
  by_cases plain : ∀ path, default ≠ .string ("settings:" ++ path)
  · cases h.symm.trans (resolveDefault_of_plain plain)
    exact .inr ⟨plain, rfl⟩
  · obtain ⟨path, rfl⟩ := by simpa using plain
    cases found : context.settings.lookup? path with
    | none => cases h.symm.trans (resolveDefault_of_missing found)
    | some v =>
      cases h.symm.trans (resolveDefault_of_found found)
      exact .inl ⟨path, rfl, found⟩

theorem resolveDefault_eq_error (h : r.resolveDefault context default = .error e) :
    ∃ path, default = .string ("settings:" ++ path) ∧ context.settings.lookup? path = none ∧
      e = .settingNotFound path r.id := by
  by_cases plain : ∀ path, default ≠ .string ("settings:" ++ path)
  · cases h.symm.trans (resolveDefault_of_plain plain)
  · obtain ⟨path, rfl⟩ := by simpa using plain
    cases found : context.settings.lookup? path with
    | some v => cases h.symm.trans (resolveDefault_of_found found)
    | none =>
      cases h.symm.trans (resolveDefault_of_missing found)
      exact ⟨path, rfl, found, rfl⟩

/-- What a parameter is given once its default is looked up. -/
theorem given_implicit (h : r.resolveDefault context default = .ok value) (name : String) :
    Given context name default (implicit context name value) := by
  rw [implicit]
  split
  · rename_i same
    exact same ▸ .workingDir
  split
  · rename_i same
    exact same ▸ .metadata
  · rename_i notDir notMeta
    obtain ⟨path, rfl, found⟩ | ⟨plain, rfl⟩ := resolveDefault_eq_ok h
    · exact .setting notDir notMeta found
    · exact .declared notDir notMeta plain

/-! ### All parameters -/

/-- A parameter with its value. -/
def argument (r : Rule) (context : ProjectContext) (p : String × Value) :
    Except Error (String × Value) :=
  (r.resolveDefault context p.2).map fun value => (p.1, implicit context p.1 value)

theorem resolveArguments_eq :
    r.resolveArguments context = r.parameters.mapM (r.argument context) := by
  rw [resolveArguments]
  congr 1

theorem argument_eq_ok {p q : String × Value} (h : r.argument context p = .ok q) :
    q.1 = p.1 ∧ Given context p.1 p.2 q.2 := by
  rw [argument] at h
  cases resolved : r.resolveDefault context p.2 with
  | error e =>
    rw [resolved] at h
    cases h
  | ok value =>
    rw [resolved] at h
    cases h
    exact ⟨rfl, given_implicit resolved p.1⟩

theorem argument_eq_error {p : String × Value} (h : r.argument context p = .error e) :
    ∃ path, p.2 = .string ("settings:" ++ path) ∧ context.settings.lookup? path = none ∧
      e = .settingNotFound path r.id := by
  rw [argument] at h
  cases resolved : r.resolveDefault context p.2 with
  | ok value =>
    rw [resolved] at h
    cases h
  | error e' =>
    rw [resolved] at h
    cases h
    exact resolveDefault_eq_error resolved

theorem argument_of_missing (missing : context.settings.lookup? path = none) (name : String) :
    r.argument context (name, .string ("settings:" ++ path)) =
      .error (.settingNotFound path r.id) :=
  congrArg (Except.map _) (resolveDefault_of_missing missing)

/-- Arguments stand for the parameters one by one. -/
theorem get?_of_forall₂ {parameters : Fields}
    (h : List.Forall₂ (fun p q => r.argument context p = .ok q) parameters arguments)
    (found : parameters.get? name = some default) :
    ∃ value, arguments.get? name = some value ∧ Given context name default value := by
  induction h with
  | nil => cases found
  | @cons p q parameters arguments head _ ih =>
    obtain ⟨same, given⟩ := argument_eq_ok head
    rw [Fields.get?] at found
    by_cases first : p.1 = name
    · rw [if_pos first] at found
      cases found
      refine ⟨q.2, ?_, first ▸ given⟩
      rw [Fields.get?, if_pos (same.trans first)]
    · rw [if_neg first] at found
      rw [Fields.get?, if_neg (same ▸ first)]
      exact ih found

theorem names_of_forall₂ {parameters : Fields}
    (h : List.Forall₂ (fun p q => r.argument context p = .ok q) parameters arguments) :
    arguments.names = parameters.names := by
  induction h with
  | nil => rfl
  | @cons p q parameters arguments head _ ih =>
    obtain ⟨same, -⟩ := argument_eq_ok head
    simp only [Fields.names, List.map_cons, same] at ih ⊢
    rw [ih]

/-- The arguments cannot be had as soon as one setting is not found. -/
theorem exists_error_of_missing (asks : r.Asks name path)
    (missing : context.settings.lookup? path = none) :
    ∃ e, r.resolveArguments context = .error e := by
  cases outcome : r.resolveArguments context with
  | error e => exact ⟨e, rfl⟩
  | ok arguments =>
    rw [resolveArguments_eq] at outcome
    obtain ⟨i, stands⟩ := List.mem_iff_getElem?.1 asks
    obtain ⟨q, -, passed⟩ := exists_getElem?_of_mapM_eq_ok outcome stands
    cases (argument_of_missing missing name).symm.trans passed

/-- What is reported is the first setting that is not found. -/
theorem first_missing_of_error (sorted : r.parameters.IsSorted)
    (h : r.resolveArguments context = .error e) :
    ∃ name path, r.Asks name path ∧ context.settings.lookup? path = none ∧
      (∀ other path', r.Asks other path' → context.settings.lookup? path' = none →
        other = name ∨ Text.bytesOf name < Text.bytesOf other) ∧
      e = .settingNotFound path r.id := by
  rw [resolveArguments_eq] at h
  obtain ⟨i, ⟨name, default⟩, stands, failed, passed⟩ := mapM_eq_error_iff.1 h
  obtain ⟨path, rfl, missing, rfl⟩ := argument_eq_error failed
  refine ⟨name, path, List.mem_iff_getElem?.2 ⟨i, stands⟩, missing,
    fun other path' asks missing' => ?_, rfl⟩
  obtain ⟨j, stands'⟩ := List.mem_iff_getElem?.1 asks
  have notBefore : ¬j < i := by
    intro before
    obtain ⟨z, found⟩ := passed j before _ stands'
    cases (argument_of_missing missing' other).symm.trans found
  obtain same | after := (Nat.not_lt.1 notBefore).eq_or_lt
  · subst same
    have entry := stands'.symm.trans stands
    exact .inl (congrArg Prod.fst (Option.some.inj entry))
  · obtain ⟨hi, first⟩ := List.getElem?_eq_some_iff.1 stands
    obtain ⟨hj, later⟩ := List.getElem?_eq_some_iff.1 stands'
    have less := List.pairwise_iff_getElem.1 sorted i j hi hj after
    rw [first, later] at less
    exact .inr (Text.bytesOf_lt_of_lt less)

/-- The arguments of a rule are there exactly if all settings are found that its parameters ask
for, also those of which the value is not used. Otherwise the first one that is missing is
reported, in the order of the bytes of the names. The arguments have the names of the parameters,
and each is what its parameter is given. -/
theorem resolveArguments_outcome (sorted : r.parameters.IsSorted) :
    ((∃ arguments, r.resolveArguments context = .ok arguments) ↔
      ∀ name path, r.Asks name path → ∃ value, context.settings.lookup? path = some value) ∧
    (∀ e, r.resolveArguments context = .error e →
      ∃ name path, r.Asks name path ∧ context.settings.lookup? path = none ∧
        (∀ other path', r.Asks other path' → context.settings.lookup? path' = none →
          other = name ∨ Text.bytesOf name < Text.bytesOf other) ∧
        e = .settingNotFound path r.id) ∧
    ∀ arguments, r.resolveArguments context = .ok arguments →
      arguments.names = r.parameters.names ∧
      ∀ name default, r.parameters.get? name = some default →
        ∃ value, arguments.get? name = some value ∧ Given context name default value := by
  refine ⟨⟨?_, fun found => ?_⟩, fun e h => first_missing_of_error sorted h, fun arguments h => ?_⟩
  · rintro ⟨arguments, resolved⟩ name path asks
    cases found : context.settings.lookup? path with
    | some value => exact ⟨value, rfl⟩
    | none =>
      obtain ⟨e, failed⟩ := exists_error_of_missing asks found
      cases failed.symm.trans resolved
  · cases outcome : r.resolveArguments context with
    | ok arguments => exact ⟨arguments, rfl⟩
    | error e =>
      obtain ⟨name, path, asks, missing, -⟩ := first_missing_of_error sorted outcome
      obtain ⟨value, stands⟩ := found name path asks
      cases missing.symm.trans stands
  · rw [resolveArguments_eq] at h
    have each := mapM_eq_ok_iff.1 h
    exact ⟨names_of_forall₂ each, fun name default found => get?_of_forall₂ each found⟩

/-- A rule that asks for two settings. One of them is not used in the end, and a string in a list
asks for nothing. -/
def sampleAsking : Rule where
  id := "sample.asking"
  description := ""
  ruleset := "sample"
  location := "/r/asking.py"
  function := "check"
  excluded := false
  parameters := [("items", .array [.string "settings:none"]),
    ("limit", .string "settings:limits.1"), ("meta", .string "settings:limits"),
    ("project_dir", .null)]

theorem resolveArguments_outcome_sampleAsking :
    let limits : Value := .object [("limits", .array [.null, .string "settings:none"])]
    let full : ProjectContext := ⟨"/w", [("k", .bool true)], limits⟩
    let bare : ProjectContext := ⟨"/w", [], .null⟩
    sampleAsking.parameters.IsSorted ∧
    (∃ arguments, sampleAsking.resolveArguments full = .ok arguments ∧
      arguments.names = ["items", "limit", "meta", "project_dir"] ∧
      ∃ value, arguments.get? "limit" = some value ∧
        Given full "limit" (.string "settings:limits.1") value) ∧
    ∃ e, sampleAsking.resolveArguments bare = .error e ∧
      ∃ name path, sampleAsking.Asks name path ∧ Value.lookup? path .null = none ∧
        e = .settingNotFound path "sample.asking" := by
  intro limits full bare
  have sorted : sampleAsking.parameters.IsSorted := by
    simp only [Fields.IsSorted, sampleAsking, String.lt_iff_toList_lt]
    decide
  obtain ⟨-, -, values⟩ := @resolveArguments_outcome sampleAsking full sorted
  obtain ⟨-, first, -⟩ := @resolveArguments_outcome sampleAsking bare sorted
  obtain ⟨names, given⟩ := values _ rfl
  obtain ⟨name, path, asks, missing, -, blame⟩ := first _ rfl
  exact ⟨sorted, ⟨_, rfl, names, given "limit" _ rfl⟩, _, rfl, name, path, asks, missing, blame⟩

end HouseRules.Rule
