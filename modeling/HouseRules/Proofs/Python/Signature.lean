import HouseRules.Proofs.Except.Traversal
import HouseRules.Proofs.Value.Fields
import HouseRules.Python.Signature

/-! What a signature declares: the parameters that are passed by keyword only, each by its place in
the list, and the fields that they give. Nothing else in the list has to do with the result. -/

namespace HouseRules.Python

/-- A parameter that is passed by keyword only: it comes after a star, and up to it there are no
two stars. -/
structure KeywordOnlyAt (parameters : List Parameter) (i : Nat) (p : Parameter) : Prop where
  stands : parameters[i]? = some p
  opened : ∃ j < i, ∃ q, parameters[j]? = some q ∧ q.opensKeywordOnly = true
  counted : ∀ j ≤ i, ∀ q, parameters[j]? = some q → q.closesKeywordOnly = false

namespace Parameter

/-- The name of a parameter, with the value that it has when it is not passed: null, or what its
default denotes. -/
inductive Declares : Parameter → String → Value → Prop where
  | plain (name : String) (annotated : Bool) : Declares (.plain name annotated) name .null
  | defaulted {name : String} {annotated : Bool} {default : Expr} {source : String} {v : Value}
      (h : default.value? = some v) : Declares (.defaulted name annotated default source) name v

/-- The default of a parameter is no literal. -/
inductive Refuses : Parameter → NonLiteral → Prop where
  | intro {name : String} {annotated : Bool} {default : Expr} {source : String}
      (h : default.value? = none) : Refuses (.defaulted name annotated default source) ⟨name, source⟩

def name? : Parameter → Option String
  | plain name _ => some name
  | defaulted name _ _ _ => some name
  | _ => none

theorem Declares.name?_eq {p : Parameter} {name : String} {v : Value} (h : p.Declares name v) :
    p.name? = some name := by
  cases h <;> rfl

end Parameter

/-- What the keyword-only parameters declare: a field for each of their names, of two parameters
with one name that of the later. -/
structure DeclaredBy (parameters : List Parameter) (fields : Fields) : Prop where
  sorted : fields.IsSorted
  mem_names : ∀ name, name ∈ fields.names ↔
    ∃ i p, KeywordOnlyAt parameters i p ∧ p.name? = some name
  get?_eq : ∀ name v, fields.get? name = some v ↔
    ∃ i p, KeywordOnlyAt parameters i p ∧ p.Declares name v ∧
      ∀ j q, i < j → KeywordOnlyAt parameters j q → q.name? ≠ some name

section

variable {parameters : List Parameter} {i : Nat} {p q : Parameter}

/-! ### Places -/

theorem keywordOnly_cons_of_closes (h : p.closesKeywordOnly = true) (ps : List Parameter) :
    keywordOnly (p :: ps) = [] := by
  rw [keywordOnly, List.takeWhile_cons_of_neg (by simp [h])]
  rfl

theorem keywordOnly_cons_of_opens (hc : p.closesKeywordOnly = false)
    (ho : p.opensKeywordOnly = true) (ps : List Parameter) :
    keywordOnly (p :: ps) = ps.takeWhile (!·.closesKeywordOnly) := by
  rw [keywordOnly, List.takeWhile_cons_of_pos (by simp [hc])]
  rw [List.dropWhile_cons_of_neg (by simp [ho]), List.drop_one, List.tail_cons]

theorem keywordOnly_cons_of_not (hc : p.closesKeywordOnly = false)
    (ho : p.opensKeywordOnly = false) (ps : List Parameter) :
    keywordOnly (p :: ps) = keywordOnly ps := by
  rw [keywordOnly, List.takeWhile_cons_of_pos (by simp [hc])]
  rw [List.dropWhile_cons_of_pos (by simp [ho])]
  rfl

/-- No two stars stand at a place or before it. -/
def CountedAt (parameters : List Parameter) (i : Nat) : Prop :=
  ∀ j ≤ i, ∀ q, parameters[j]? = some q → q.closesKeywordOnly = false

theorem countedAt_cons_succ {ps : List Parameter} :
    CountedAt (p :: ps) (i + 1) ↔ p.closesKeywordOnly = false ∧ CountedAt ps i := by
  constructor
  · intro h
    exact ⟨h 0 (Nat.zero_le _) p rfl, fun j hj => h (j + 1) (Nat.succ_le_succ hj)⟩
  · rintro ⟨first, rest⟩ j hj r hr
    cases j with
    | zero => exact Option.some.inj hr ▸ first
    | succ j => exact rest j (Nat.le_of_succ_le_succ hj) r hr

theorem getElem?_takeWhile_iff {ps : List Parameter} :
    (ps.takeWhile (!·.closesKeywordOnly))[i]? = some q ↔ ps[i]? = some q ∧ CountedAt ps i := by
  induction ps generalizing i with
  | nil => simp
  | cons p ps ih =>
    cases hc : p.closesKeywordOnly with
    | true =>
      rw [List.takeWhile_cons_of_neg (by simp [hc])]
      refine ⟨fun h => (by cases h), fun ⟨_, counted⟩ => ?_⟩
      cases hc.symm.trans (counted 0 (Nat.zero_le i) p rfl)
    | false =>
      rw [List.takeWhile_cons_of_pos (by simp [hc])]
      cases i with
      | zero =>
        refine ⟨fun h => ⟨h, fun j hj r hr => ?_⟩, And.left⟩
        obtain rfl := Nat.le_zero.1 hj
        exact Option.some.inj hr ▸ hc
      | succ i =>
        rw [List.getElem?_cons_succ, List.getElem?_cons_succ, ih, countedAt_cons_succ]
        simp [hc]

theorem not_keywordOnlyAt_zero {ps : List Parameter} : ¬KeywordOnlyAt ps 0 q := by
  rintro ⟨-, ⟨j, hj, -⟩, -⟩
  exact Nat.not_lt_zero j hj

theorem not_keywordOnlyAt_of_closes {ps : List Parameter} (hc : p.closesKeywordOnly = true) :
    ¬KeywordOnlyAt (p :: ps) i q := fun h => by
  cases hc.symm.trans (h.counted 0 (Nat.zero_le i) p rfl)

theorem keywordOnlyAt_cons_of_opens {ps : List Parameter} (hc : p.closesKeywordOnly = false)
    (ho : p.opensKeywordOnly = true) :
    KeywordOnlyAt (p :: ps) (i + 1) q ↔ ps[i]? = some q ∧ CountedAt ps i := by
  constructor
  · rintro ⟨stands, -, counted⟩
    exact ⟨stands, (countedAt_cons_succ.1 counted).2⟩
  · rintro ⟨stands, counted⟩
    exact ⟨stands, ⟨0, Nat.succ_pos i, p, rfl, ho⟩, countedAt_cons_succ.2 ⟨hc, counted⟩⟩

theorem keywordOnlyAt_cons_of_not {ps : List Parameter} (hc : p.closesKeywordOnly = false)
    (ho : p.opensKeywordOnly = false) :
    KeywordOnlyAt (p :: ps) (i + 1) q ↔ KeywordOnlyAt ps i q := by
  constructor
  · rintro ⟨stands, ⟨j, hj, r, hr, hopen⟩, counted⟩
    refine ⟨stands, ?_, (countedAt_cons_succ.1 counted).2⟩
    cases j with
    | zero =>
      cases hr
      cases ho.symm.trans hopen
    | succ j => exact ⟨j, Nat.lt_of_succ_lt_succ hj, r, hr, hopen⟩
  · rintro ⟨stands, ⟨j, hj, opened⟩, counted⟩
    exact ⟨stands, ⟨j + 1, Nat.succ_lt_succ hj, opened⟩, countedAt_cons_succ.2 ⟨hc, counted⟩⟩

/-- The keyword-only parameters stand one after another from some place on. -/
theorem exists_offset (parameters : List Parameter) :
    ∃ s, ∀ i p, KeywordOnlyAt parameters i p ↔ s ≤ i ∧ (keywordOnly parameters)[i - s]? = some p := by
  induction parameters with
  | nil => exact ⟨0, fun i p => ⟨fun h => (by cases h.stands), fun h => (by cases h.2)⟩⟩
  | cons p ps ih =>
    cases hc : p.closesKeywordOnly with
    | true =>
      refine ⟨0, fun i q => ?_⟩
      simp [keywordOnly_cons_of_closes hc, not_keywordOnlyAt_of_closes hc]
    | false =>
      cases ho : p.opensKeywordOnly with
      | true =>
        rw [keywordOnly_cons_of_opens hc ho]
        refine ⟨1, fun i q => ?_⟩
        cases i with
        | zero => simp [not_keywordOnlyAt_zero]
        | succ i =>
          rw [keywordOnlyAt_cons_of_opens hc ho, Nat.add_sub_cancel, getElem?_takeWhile_iff]
          simp
      | false =>
        obtain ⟨s, places⟩ := ih
        rw [keywordOnly_cons_of_not hc ho]
        refine ⟨s + 1, fun i q => ?_⟩
        cases i with
        | zero => simp [not_keywordOnlyAt_zero]
        | succ i =>
          rw [keywordOnlyAt_cons_of_not hc ho, Nat.add_sub_add_right, Nat.succ_le_succ_iff, places]

/-! ### Fields -/

theorem declared_eq_error_iff {e : NonLiteral} : declared p = .error e ↔ p.Refuses e := by
  constructor
  · intro h
    unfold declared at h
    split at h
    · cases h
    · split at h
      · cases h
      · rename_i none
        cases h
        exact .intro none
    · cases h
  · rintro ⟨h⟩
    rw [declared, h]

theorem declared_eq_ok_some_iff {name : String} {v : Value} :
    declared p = .ok (some (name, v)) ↔ p.Declares name v := by
  constructor
  · intro h
    unfold declared at h
    split at h
    · cases h
      exact .plain _ _
    · split at h
      · rename_i value
        cases h
        exact .defaulted value
      · cases h
    · cases h
  · intro h
    cases h with
    | plain => rfl
    | defaulted h => rw [declared, h]

theorem exists_of_declared {o : Option (String × Value)} {name : String}
    (h : declared p = .ok o) (hname : p.name? = some name) : ∃ v, o = some (name, v) := by
  unfold declared at h
  split at h
  · cases h
    cases hname
    exact ⟨_, rfl⟩
  · split at h
    · cases h
      cases hname
      exact ⟨_, rfl⟩
    · cases h
  · rename_i plain defaulted
    cases p with
    | plain name annotated => exact absurd rfl (plain name annotated)
    | defaulted name annotated default source => exact absurd rfl (defaulted name annotated default source)
    | tuple | slash | star | rest | keywords => cases hname

theorem getElem?_concat_iff {entries : List (Option (String × Value))}
    {entry : Option (String × Value)} {x : String × Value} {k : Nat} :
    (entries ++ [entry])[k]? = some (some x) ↔
      entries[k]? = some (some x) ∨ k = entries.length ∧ entry = some x := by
  grind

theorem get?_ofList_concat_of_ne {entries : List (Option (String × Value))}
    {entry : Option (String × Value)} {name : String} (h : ∀ v, entry ≠ some (name, v)) :
    (Fields.ofList ((entries ++ [entry]).filterMap id)).get? name =
      (Fields.ofList (entries.filterMap id)).get? name := by
  rw [List.filterMap_append]
  cases entry with
  | none => rw [show [none].filterMap id = ([] : Fields) from rfl, List.append_nil]
  | some x =>
    obtain ⟨other, v⟩ := x
    rw [show [some (other, v)].filterMap id = [(other, v)] from rfl, Fields.ofList_concat,
      Fields.get?_insert_of_ne]
    rintro rfl
    exact h v rfl

/-- Of the entries with a name the last counts. -/
theorem get?_ofList_filterMap {entries : List (Option (String × Value))} {name : String}
    {v : Value} :
    (Fields.ofList (entries.filterMap id)).get? name = some v ↔
      ∃ k : Nat, entries[k]? = some (some (name, v)) ∧
        ∀ j > k, ∀ w, entries[j]? ≠ some (some (name, w)) := by
  induction entries using List.reverseRecOn with
  | nil => simp [Fields.ofList]
  | append_singleton entries entry ih =>
    by_cases hname : ∃ w, entry = some (name, w)
    · obtain ⟨w, rfl⟩ := hname
      have last : (entries ++ [some (name, w)])[entries.length]? = some (some (name, w)) :=
        List.getElem?_concat_length
      have inside {j : Nat} {x : Value} (h : entries[j]? = some (some (name, x))) :
          j < entries.length := (List.getElem?_eq_some_iff.1 h).1
      rw [List.filterMap_append, show [some (name, w)].filterMap id = [(name, w)] from rfl,
        Fields.ofList_concat, Fields.get?_insert_self]
      constructor
      · intro h
        cases h
        refine ⟨entries.length, last, fun j hj x hx => ?_⟩
        obtain h | ⟨h, -⟩ := getElem?_concat_iff.1 hx
        · exact absurd (inside h) (Nat.not_lt.2 hj.le)
        · exact absurd h hj.ne'
      · rintro ⟨k, hk, none⟩
        obtain h | ⟨-, h⟩ := getElem?_concat_iff.1 hk
        · exact absurd last (none _ (inside h) w)
        · cases h
          rfl
    · have others : ∀ w, entry ≠ some (name, w) := fun w h => hname ⟨w, h⟩
      rw [get?_ofList_concat_of_ne others, ih]
      simp only [ne_eq, getElem?_concat_iff, others, and_false, or_false]

theorem mem_names_filterMap {entries : List (Option (String × Value))} {name : String} :
    name ∈ Fields.names (entries.filterMap id) ↔
      ∃ (k : Nat) (v : Value), entries[k]? = some (some (name, v)) := by
  constructor
  · intro mem
    obtain ⟨x, hx, rfl⟩ := List.mem_map.1 mem
    obtain ⟨_, mem, rfl⟩ := List.mem_filterMap.1 hx
    obtain ⟨k, hk⟩ := List.mem_iff_getElem?.1 mem
    exact ⟨k, x.2, hk⟩
  · rintro ⟨k, v, hk⟩
    exact List.mem_map.2 ⟨(name, v), List.mem_filterMap.2 ⟨_, List.mem_of_getElem? hk, rfl⟩, rfl⟩

/-- The fields of keyword-only parameters, if every one of them gives an entry. -/
theorem declaredBy_of_mapM {entries : List (Option (String × Value))}
    (h : (keywordOnly parameters).mapM declared = .ok entries) :
    DeclaredBy parameters (Fields.ofList (entries.filterMap id)) := by
  obtain ⟨s, places⟩ := exists_offset parameters
  have stands {i : Nat} {p : Parameter} (hp : KeywordOnlyAt parameters i p) :
      ∃ k o, i = s + k ∧ entries[k]? = some o ∧ declared p = .ok o := by
    obtain ⟨hi, hp⟩ := (places i p).1 hp
    obtain ⟨o, ho, given⟩ := exists_getElem?_of_mapM_eq_ok h hp
    exact ⟨i - s, o, (Nat.add_sub_cancel' hi).symm, ho, given⟩
  have exists_parameter {k : Nat} {o : Option (String × Value)} (ho : entries[k]? = some o) :
      ∃ p, KeywordOnlyAt parameters (s + k) p ∧ declared p = .ok o := by
    obtain ⟨p, hp, given⟩ := exists_of_getElem?_of_mapM_eq_ok h ho
    exact ⟨p, (places _ p).2 ⟨Nat.le_add_right s k, by rwa [Nat.add_sub_cancel_left]⟩, given⟩
  refine ⟨Fields.isSorted_ofList _, fun name => ?_, fun name v => ?_⟩
  · rw [Fields.mem_names_ofList, mem_names_filterMap]
    constructor
    · rintro ⟨k, v, hk⟩
      obtain ⟨p, hp, given⟩ := exists_parameter hk
      exact ⟨s + k, p, hp, (declared_eq_ok_some_iff.1 given).name?_eq⟩
    · rintro ⟨i, p, hp, hname⟩
      obtain ⟨k, o, -, ho, given⟩ := stands hp
      obtain ⟨v, rfl⟩ := exists_of_declared given hname
      exact ⟨k, v, ho⟩
  · rw [get?_ofList_filterMap]
    constructor
    · rintro ⟨k, hk, last⟩
      obtain ⟨p, hp, given⟩ := exists_parameter hk
      refine ⟨s + k, p, hp, declared_eq_ok_some_iff.1 given, fun j q hj hq hname => ?_⟩
      obtain ⟨l, o, rfl, ho, given'⟩ := stands hq
      obtain ⟨w, rfl⟩ := exists_of_declared given' hname
      exact last l (Nat.lt_of_add_lt_add_left hj) w ho
    · rintro ⟨i, p, hp, declares, last⟩
      obtain ⟨k, o, rfl, ho, given⟩ := stands hp
      cases given.symm.trans (declared_eq_ok_some_iff.2 declares)
      refine ⟨k, ho, fun j hj w hw => ?_⟩
      obtain ⟨q, hq, given'⟩ := exists_parameter hw
      exact last _ q (Nat.add_lt_add_left hj s) hq (declared_eq_ok_some_iff.1 given').name?_eq

theorem DeclaredBy.unique {fields fields' : Fields} (h : DeclaredBy parameters fields)
    (h' : DeclaredBy parameters fields') : fields = fields' :=
  h.sorted.ext h'.sorted fun name v => (h.get?_eq name v).trans (h'.get?_eq name v).symm

theorem declaredParameters_eq (parameters : List Parameter) :
    declaredParameters parameters = ((keywordOnly parameters).mapM declared).map fun entries =>
      Fields.ofList (entries.filterMap id) := by
  rw [declaredParameters]
  rcases (keywordOnly parameters).mapM declared with e | entries <;> rfl

theorem declaredParameters_eq_error_iff {e : NonLiteral} :
    declaredParameters parameters = .error e ↔
      ∃ i p, KeywordOnlyAt parameters i p ∧ p.Refuses e ∧
        ∀ j q, j < i → KeywordOnlyAt parameters j q → ∀ e', ¬q.Refuses e' := by
  obtain ⟨s, places⟩ := exists_offset parameters
  have failed : declaredParameters parameters = .error e ↔
      (keywordOnly parameters).mapM declared = .error e := by
    rw [declaredParameters_eq]
    rcases (keywordOnly parameters).mapM declared with e' | entries <;> simp [Except.map]
  have passes {q : Parameter} : (∃ o, declared q = .ok o) ↔ ∀ e', ¬q.Refuses e' := by
    simp only [← declared_eq_error_iff]
    rcases declared q with e' | o <;> simp
  rw [failed, mapM_eq_error_iff]
  constructor
  · rintro ⟨k, p, hp, refused, before⟩
    refine ⟨s + k, p, (places _ p).2 ⟨Nat.le_add_right s k, by rwa [Nat.add_sub_cancel_left]⟩,
      declared_eq_error_iff.1 refused, fun j q hj hq => passes.1 ?_⟩
    obtain ⟨hs, hq⟩ := (places j q).1 hq
    exact before (j - s) (by omega) q hq
  · rintro ⟨i, p, hp, refused, before⟩
    obtain ⟨hs, hp⟩ := (places i p).1 hp
    refine ⟨i - s, p, hp, declared_eq_error_iff.2 refused, fun j hj q hq => passes.2 ?_⟩
    exact before (s + j) q (by omega)
      ((places _ q).2 ⟨Nat.le_add_right s j, by rwa [Nat.add_sub_cancel_left]⟩)

theorem declaredParameters_eq_ok_iff {fields : Fields} :
    declaredParameters parameters = .ok fields ↔
      (∀ i p, KeywordOnlyAt parameters i p → ∀ e, ¬p.Refuses e) ∧
        DeclaredBy parameters fields := by
  have result := declaredParameters_eq parameters
  rcases h : (keywordOnly parameters).mapM declared with e | entries
  · rw [h] at result
    obtain ⟨i, p, hp, refused, -⟩ := declaredParameters_eq_error_iff.1 result
    rw [result]
    exact ⟨fun same => (by cases same), fun ⟨pass, _⟩ => absurd refused (pass i p hp e)⟩
  · rw [h] at result
    have declares := declaredBy_of_mapM h
    rw [result]
    constructor
    · intro same
      cases same
      refine ⟨fun i p hp e refused => ?_, declares⟩
      obtain ⟨s, places⟩ := exists_offset parameters
      obtain ⟨o, -, given⟩ := exists_getElem?_of_mapM_eq_ok h ((places i p).1 hp).2
      cases given.symm.trans (declared_eq_error_iff.2 refused)
    · rintro ⟨-, declares'⟩
      exact congrArg Except.ok (declares.unique declares')

/-! ### Parameters that do not count -/

/-- Only the keyword-only parameters have to do with what is declared. -/
theorem declaredParameters_congr {parameters' : List Parameter}
    (same : ∀ i p, KeywordOnlyAt parameters i p ↔ KeywordOnlyAt parameters' i p) :
    declaredParameters parameters' = declaredParameters parameters := by
  rcases h : declaredParameters parameters with e | fields
  · rw [declaredParameters_eq_error_iff] at h ⊢
    simpa only [← same] using h
  · rw [declaredParameters_eq_ok_iff] at h ⊢
    obtain ⟨pass, sorted, mem_names, get?_eq⟩ := h
    simp only [same] at pass mem_names get?_eq
    exact ⟨pass, sorted, mem_names, get?_eq⟩

/-- A named parameter that is not passed by keyword only may be replaced by another one. -/
theorem keywordOnlyAt_set (stands : parameters[i]? = some p)
    (hp : p.opensKeywordOnly = false ∧ p.closesKeywordOnly = false)
    (hq : q.opensKeywordOnly = false ∧ q.closesKeywordOnly = false)
    (apart : ¬KeywordOnlyAt parameters i p) (j : Nat) (r : Parameter) :
    KeywordOnlyAt parameters j r ↔ KeywordOnlyAt (parameters.set i q) j r := by
  have hi := (List.getElem?_eq_some_iff.1 stands).1
  have at_i : (parameters.set i q)[i]? = some q := List.getElem?_set_self hi
  have elsewhere {k : Nat} (hk : i ≠ k) : (parameters.set i q)[k]? = parameters[k]? :=
    List.getElem?_set_ne hk
  have opens (k : Nat) : (∃ r, parameters[k]? = some r ∧ r.opensKeywordOnly = true) ↔
      ∃ r, (parameters.set i q)[k]? = some r ∧ r.opensKeywordOnly = true := by
    by_cases hk : i = k
    · subst hk
      simp [stands, at_i, hp, hq]
    · rw [elsewhere hk]
  have closes (k : Nat) : (∀ r, parameters[k]? = some r → r.closesKeywordOnly = false) ↔
      ∀ r, (parameters.set i q)[k]? = some r → r.closesKeywordOnly = false := by
    by_cases hk : i = k
    · subst hk
      simp [stands, at_i, hp, hq]
    · rw [elsewhere hk]
  by_cases hj : i = j
  · subst hj
    constructor
    · intro h
      cases stands.symm.trans h.stands
      exact absurd h apart
    · rintro ⟨-, opened, counted⟩
      simp only [← opens] at opened
      exact absurd ⟨stands, opened, fun k hk => (closes k).2 (counted k hk)⟩ apart
  · constructor
    · rintro ⟨stands', opened, counted⟩
      simp only [opens] at opened
      exact ⟨(elsewhere hj).trans stands', opened, fun k hk => (closes k).1 (counted k hk)⟩
    · rintro ⟨stands', opened, counted⟩
      simp only [← opens] at opened
      exact ⟨(elsewhere hj).symm.trans stands', opened, fun k hk => (closes k).2 (counted k hk)⟩

/-! ### Declared parameters -/

/-- A signature declares the fields of its keyword-only parameters if each default of them is a
literal, and otherwise the first that is none is what is wrong with it. The defaults of other
parameters are not looked at. -/
theorem declaredParameters_keywordOnly (parameters : List Parameter) :
    (∀ fields, declaredParameters parameters = .ok fields ↔
      (∀ i p, KeywordOnlyAt parameters i p → ∀ e, ¬p.Refuses e) ∧
        DeclaredBy parameters fields) ∧
    (∀ e, declaredParameters parameters = .error e ↔
      ∃ i p, KeywordOnlyAt parameters i p ∧ p.Refuses e ∧
        ∀ j q, j < i → KeywordOnlyAt parameters j q → ∀ e', ¬q.Refuses e') ∧
    ∀ i name annotated default source default' source',
      parameters[i]? = some (.defaulted name annotated default source) →
      (∀ p, ¬KeywordOnlyAt parameters i p) →
      declaredParameters (parameters.set i (.defaulted name annotated default' source')) =
        declaredParameters parameters := by
  refine ⟨fun fields => declaredParameters_eq_ok_iff, fun e => declaredParameters_eq_error_iff, ?_⟩
  intro i name annotated default source default' source' stands apart
  exact declaredParameters_congr (keywordOnlyAt_set stands ⟨rfl, rfl⟩ ⟨rfl, rfl⟩ (apart _))

end

/-- Defaults that are no literals before the star and after the two stars, as in
`x=f(), *, a, b: int = 2, **rest, c=g()`. -/
def sampleSignature : List Parameter := [
  .defaulted "x" false .other "f()", .star, .plain "a" false,
  .defaulted "b" true (.integer ['2']) "2", .keywords false, .defaulted "c" false .other "g()"]

/-- The default after the two stars may be any other one. -/
theorem declaredParameters_keywordOnly_sample :
    sampleSignature[5]? = some (.defaulted "c" false .other "g()") ∧
    (∀ p, ¬KeywordOnlyAt sampleSignature 5 p) ∧
    declaredParameters (sampleSignature.set 5 (.defaulted "c" false .null "None")) =
      declaredParameters sampleSignature := by
  have apart (p : Parameter) : ¬KeywordOnlyAt sampleSignature 5 p := fun h =>
    absurd (h.counted 4 (by decide) _ rfl) (by decide)
  exact ⟨rfl, apart,
    (declaredParameters_keywordOnly _).2.2 5 _ _ _ _ .null "None" rfl apart⟩

example : declaredParameters sampleSignature = .ok [("a", .null), ("b", .int 2)] := by cbv

end HouseRules.Python
