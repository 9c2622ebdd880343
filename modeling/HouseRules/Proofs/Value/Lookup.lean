import HouseRules.Proofs.Path.Components
import HouseRules.Proofs.Text.Numeral
import HouseRules.Settings
import Mathlib.Data.List.Forall2

/-! Paths between dots as addresses in a tree. A chain of steps to a node is written as a path that
leads back to it, a path leads where its pieces lead one by one, and the way along two paths is one
way after the other. -/

namespace HouseRules

/-! ### Indexes -/

/-- Decimal digits of a 64-bit number, with or without a plus sign. -/
def IsIndex (piece : List Char) (n : Nat) : Prop :=
  ∃ digits, (piece = digits ∨ piece = '+' :: digits) ∧ digits ≠ [] ∧ Text.Numeral 10 digits n ∧
    n < 2 ^ 64

theorem plus_not_mem {digits : List Char} {n : Nat} (h : Text.Numeral 10 digits n) :
    '+' ∉ digits :=
  h.not_mem (by decide)

theorem index?_eq_some_iff {piece : List Char} {n : Nat} :
    index? piece = some n ↔ IsIndex piece n := by
  have read (digits : List Char) :
      (Text.number? 10 digits).filter (· < 0x10000000000000000) = some n ↔
        digits ≠ [] ∧ Text.Numeral 10 digits n ∧ n < 2 ^ 64 := by
    rw [Option.filter_eq_some_iff, Text.Numeral.number?_iff (by decide), decide_eq_true_eq,
      and_assoc]
    exact Iff.rfl
  by_cases signed : ∃ digits, piece = '+' :: digits
  · obtain ⟨digits, rfl⟩ := signed
    rw [index?, read]
    constructor
    · rintro ⟨hne, numeral, small⟩
      exact ⟨digits, .inr rfl, hne, numeral, small⟩
    · rintro ⟨digits', rfl | same, hne, numeral, small⟩
      · exact absurd List.mem_cons_self (plus_not_mem numeral)
      · cases same
        exact ⟨hne, numeral, small⟩
  · have unsigned : index? piece =
        (Text.number? 10 piece).filter (· < 0x10000000000000000) := by
      rw [index?]
      exact fun digits same => signed ⟨digits, same⟩
    rw [unsigned, read]
    constructor
    · rintro ⟨hne, numeral, small⟩
      exact ⟨piece, .inl rfl, hne, numeral, small⟩
    · rintro ⟨digits, rfl | rfl, hne, numeral, small⟩
      · exact ⟨hne, numeral, small⟩
      · exact absurd ⟨digits, rfl⟩ signed

namespace Value

/-! ### Descending -/

/-- A piece names a child of a value: the field of that name, or the item of that index. -/
inductive IsChild (piece : List Char) : Value → Value → Prop
  | field {fields w} : Fields.get? (String.ofList piece) fields = some w →
      IsChild piece (.object fields) w
  | item {items n w} : IsIndex piece n → items[n]? = some w → IsChild piece (.array items) w

/-- The pieces name a child after the other, down to a value. -/
inductive Descends : List (List Char) → Value → Value → Prop
  | here {v} : Descends [] v v
  | step {piece pieces v u w} : IsChild piece v u → Descends pieces u w →
      Descends (piece :: pieces) v w

variable {v w : Value} {piece : List Char} {pieces before after : List (List Char)}

theorem child?_eq_some_iff : v.child? piece = some w ↔ IsChild piece v w := by
  constructor
  · intro h
    cases v with
    | object fields => exact .field h
    | array items =>
      obtain ⟨n, index, stands⟩ := Option.bind_eq_some_iff.1 h
      exact .item (index?_eq_some_iff.1 index) stands
    | _ => cases h
  · rintro (found | ⟨index, stands⟩)
    · exact found
    · exact Option.bind_eq_some_iff.2 ⟨_, index?_eq_some_iff.2 index, stands⟩

theorem child?_eq_none_iff : v.child? piece = none ↔ ∀ w, ¬IsChild piece v w := by
  simp only [Option.eq_none_iff_forall_ne_some, ne_eq, child?_eq_some_iff]

theorem descend?_eq_some_iff : v.descend? pieces = some w ↔ Descends pieces v w := by
  induction pieces generalizing v with
  | nil =>
    rw [descend?, Option.some.injEq]
    constructor
    · rintro rfl
      exact .here
    · rintro ⟨⟩
      rfl
  | cons piece pieces ih =>
    rw [descend?, Option.bind_eq_some_iff]
    constructor
    · rintro ⟨u, child, rest⟩
      exact .step (child?_eq_some_iff.1 child) (ih.1 rest)
    · rintro (_ | ⟨child, rest⟩)
      exact ⟨_, child?_eq_some_iff.2 child, ih.2 rest⟩

theorem descend?_append (before after : List (List Char)) (v : Value) :
    v.descend? (before ++ after) = (v.descend? before).bind (descend? after) := by
  induction before generalizing v with
  | nil => rfl
  | cons piece before ih =>
    rw [List.cons_append, descend?, descend?]
    cases v.child? piece with
    | none => rfl
    | some u => exact ih u

/-- A descent fails at the first piece that names no child. -/
theorem descend?_eq_none_iff : v.descend? pieces = none ↔
    ∃ before piece after u, pieces = before ++ piece :: after ∧ Descends before v u ∧
      ∀ w, ¬IsChild piece u w := by
  constructor
  · intro h
    induction pieces generalizing v with
    | nil => cases h
    | cons piece pieces ih =>
      cases child : v.child? piece with
      | none => exact ⟨[], piece, pieces, v, rfl, .here, child?_eq_none_iff.1 child⟩
      | some u =>
        rw [descend?, child] at h
        obtain ⟨before, last, after, x, rfl, way, ends⟩ := ih h
        exact ⟨piece :: before, last, after, x, rfl, .step (child?_eq_some_iff.1 child) way, ends⟩
  · rintro ⟨before, piece, after, u, rfl, way, ends⟩
    rw [descend?_append, descend?_eq_some_iff.2 way, Option.bind_some, descend?,
      child?_eq_none_iff.2 ends]
    rfl

theorem lookup?_of_ne_empty {path : String} (h : path ≠ "") (v : Value) :
    v.lookup? path = v.descend? (Text.pieces '.' path.toList) := by
  rw [lookup?, if_neg (by simpa using h)]

/-! ### Written chains -/

/-- A step into a value: to a field of an object, or to an item of an array. Items are counted by
words of 64 bits. -/
inductive Step where
  | field (name : String)
  | item (index : UInt64)
  deriving DecidableEq

/-- A chain of steps from a value to a node of it. -/
inductive Chain : List Step → Value → Value → Prop
  | here {v : Value} : Chain [] v v
  | field {name : String} {steps : List Step} {fields : Fields} {v w : Value} : Fields.get? name fields = some v →
      Chain steps v w → Chain (.field name :: steps) (.object fields) w
  | item {index : UInt64} {steps : List Step} {items : List Value} {v w : Value} :
      items[index.toNat]? = some v → Chain steps v w → Chain (.item index :: steps) (.array items) w

/-- How a step is written: a name as it is, if there is no dot in it, and an index in decimal
digits, perhaps after zeros and before them a plus sign. -/
inductive Step.Writes : Step → List Char → Prop
  | field {name : String} : '.' ∉ name.toList → Writes (.field name) name.toList
  | item (index : UInt64) (zeros : Nat) :
      Writes (.item index) (List.replicate zeros '0' ++ (Text.decimal index.toNat).toList)
  | signed (index : UInt64) (zeros : Nat) :
      Writes (.item index) ('+' :: (List.replicate zeros '0' ++ (Text.decimal index.toNat).toList))

variable {step : Step} {steps : List Step} {written : List (List Char)}

theorem Step.Writes.isIndex {index : UInt64} (h : Step.Writes (.item index) piece) :
    IsIndex piece index.toNat := by
  have padded (zeros : Nat) :=
    (Text.numeral_decimal index.toNat).zeros_append (by decide) zeros
  have hne (zeros : Nat) : List.replicate zeros '0' ++ (Text.decimal index.toNat).toList ≠ [] :=
    List.append_ne_nil_of_right_ne_nil _ (Text.decimal_ne_nil _)
  cases h with
  | item _ zeros => exact ⟨_, .inl rfl, hne zeros, padded zeros, index.toNat_lt⟩
  | signed _ zeros => exact ⟨_, .inr rfl, hne zeros, padded zeros, index.toNat_lt⟩

theorem Step.Writes.dot_not_mem (h : step.Writes piece) : '.' ∉ piece := by
  cases step with
  | field name =>
    cases h
    assumption
  | item index =>
    obtain ⟨digits, rfl | rfl, -, numeral, -⟩ := h.isIndex
    · exact numeral.not_mem (by decide)
    · simpa using numeral.not_mem (c := '.') (by decide)

/-- Only the empty name is written as nothing. -/
theorem Step.Writes.eq_empty (h : step.Writes []) : step = .field "" := by
  cases step with
  | field name =>
    generalize same : ([] : List Char) = piece at h
    cases h
    rw [String.toList_inj.1 (same.symm.trans String.toList_empty.symm)]
  | item index =>
    obtain ⟨digits, rfl | same, hne, -⟩ := h.isIndex
    · exact absurd rfl hne
    · cases same

/-- The pieces of a written chain descend to its node. -/
theorem Chain.descends (h : Chain steps v w) (writes : List.Forall₂ Step.Writes steps written) :
    Descends written v w := by
  induction h generalizing written with
  | here =>
    cases writes
    exact .here
  | field found _ ih =>
    obtain _ | ⟨head, tail⟩ := writes
    refine .step (.field ?_) (ih tail)
    cases head
    rwa [String.ofList_toList]
  | item stands _ ih =>
    obtain _ | ⟨head, tail⟩ := writes
    exact .step (.item head.isIndex stands) (ih tail)

theorem lookup?_joinPieces (chain : Chain steps v w)
    (writes : List.Forall₂ Step.Writes steps written) (hne : steps ≠ [])
    (other : steps ≠ [.field ""]) :
    v.lookup? (String.ofList (Text.joinPieces '.' written)) = some w := by
  have written_ne : written ≠ [] := by
    rintro rfl
    cases writes
    exact hne rfl
  have dots : ∀ piece ∈ written, '.' ∉ piece := by
    clear chain hne other written_ne
    induction writes with
    | nil => exact fun _ mem => absurd mem List.not_mem_nil
    | cons head _ ih => exact List.forall_mem_cons.2 ⟨head.dot_not_mem, ih⟩
  have pieces := Text.pieces_joinPieces written_ne dots
  have path_ne : String.ofList (Text.joinPieces '.' written) ≠ "" := by
    intro empty
    have nothing : Text.joinPieces '.' written = [] := by simpa using empty
    rw [nothing] at pieces
    obtain rfl : [[]] = written := pieces
    obtain ⟨step, rest, write, none, rfl⟩ := List.forall₂_cons_right_iff.1 writes
    cases none
    exact other (by rw [write.eq_empty])
  rw [lookup?_of_ne_empty path_ne, String.toList_ofList, pieces, descend?_eq_some_iff]
  exact chain.descends writes

/-! ### Addresses -/

/-- Written chains lead to their nodes. A path that is not empty leads where its pieces lead one
by one, and nowhere exactly if one of them names no child. Two paths with a dot in between lead
along the first and from there along the second. -/
theorem lookup?_addresses (v : Value) :
    (∀ steps written w, Chain steps v w → List.Forall₂ Step.Writes steps written → steps ≠ [] →
      steps ≠ [.field ""] → v.lookup? (String.ofList (Text.joinPieces '.' written)) = some w) ∧
    (∀ path, path ≠ "" →
      (∀ w, v.lookup? path = some w ↔ Descends (Text.pieces '.' path.toList) v w) ∧
      (v.lookup? path = none ↔ ∃ before piece after u,
        Text.pieces '.' path.toList = before ++ piece :: after ∧ Descends before v u ∧
          ∀ w, ¬IsChild piece u w)) ∧
    ∀ p q, p ≠ "" → q ≠ "" → v.lookup? (p ++ "." ++ q) = (v.lookup? p).bind (lookup? q) := by
  refine ⟨fun steps written w chain writes hne other => lookup?_joinPieces chain writes hne other,
    fun path hpath => ?_, fun p q hp hq => ?_⟩
  · rw [lookup?_of_ne_empty hpath]
    exact ⟨fun w => descend?_eq_some_iff, descend?_eq_none_iff⟩
  · have hwhole : p ++ "." ++ q ≠ "" := by simp [hp]
    have pieces : Text.pieces '.' (p ++ "." ++ q).toList =
        Text.pieces '.' p.toList ++ Text.pieces '.' q.toList := by
      rw [← Text.pieces_append_cons]
      simp
    rw [lookup?_of_ne_empty hwhole, lookup?_of_ne_empty hp, pieces, descend?_append]
    congr 1
    exact funext fun u => (lookup?_of_ne_empty hq u).symm

/-- A tree with an array and an empty name below it. -/
def sampleTree : Value := .object [("a", .array [.null, .object [("", .bool true)]])]

theorem lookup?_addresses_sampleTree :
    let steps : List Step := [.field "a", .item 1, .field ""]
    let written := ["a".toList, "+01".toList, []]
    Chain steps sampleTree (.bool true) ∧ List.Forall₂ Step.Writes steps written ∧
    steps ≠ [] ∧ steps ≠ [.field ""] ∧ sampleTree.lookup? "a.+01." = some (.bool true) ∧
    sampleTree.lookup? "a.1" = (sampleTree.lookup? "a").bind (lookup? "1") ∧
    sampleTree.lookup? "a.2" = none := by
  intro steps written
  obtain ⟨chains, paths, joined⟩ := lookup?_addresses sampleTree
  have chain : Chain steps sampleTree (.bool true) :=
    .field rfl (.item rfl (.field rfl .here))
  have writes : List.Forall₂ Step.Writes steps written :=
    .cons (.field (by decide)) (.cons (.signed 1 1) (.cons (.field (by decide)) .nil))
  refine ⟨chain, writes, by decide, by decide, ?_, joined "a" "1" (by decide) (by decide), ?_⟩
  · exact chains steps written _ chain writes (by decide) (by decide)
  · exact (paths "a.2" (by decide)).2.2 ⟨["a".toList], "2".toList, [], _, by decide,
      .step (.field rfl) .here, child?_eq_none_iff.1 rfl⟩

end Value

end HouseRules
