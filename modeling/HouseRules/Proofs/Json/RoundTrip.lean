import HouseRules.Proofs.Json.Reading
import HouseRules.Proofs.Json.Token

/-! Values read back from their text: a value without floating point numbers is the value of the
text it is written as, at any depth, and no control character stands in that text. -/

namespace HouseRules.Json

/-- A tree is what is read where a value is written, whatever stands behind it, and denotes the
value. -/
structure Spells (v : Value) (t : Tree) : Prop where
  read : ∀ ⦃fuel : Nat⦄ ⦃r : List Char⦄, (write v).length ≤ fuel → EndsNumber r →
    readValue fuel (write v ++ r) = some (t, r)
  value : t.value? = some v

/-- A member spells the name and the value of a field. -/
def SpellsField (f : String × Value) (m : List Char × Tree) : Prop :=
  m.1 = spelled f.1 ∧ Spells f.2 m.2

variable {v : Value} {vs : List Value} {fields : Fields} {ts : List Tree}
  {ms : List (List Char × Tree)} {fuel : Nat} {r : List Char}

/-! ### Where a value starts -/

theorem skipSpace_cons {c : Char} (h : isSpace c = false) (s : List Char) :
    skipSpace (c :: s) = c :: s :=
  List.dropWhile_cons_of_neg (by simp [h])

theorem ne_of_isDigit {c d : Char} (h : c.isDigit = true ∨ c = '-') (digit : d.isDigit = false)
    (minus : d ≠ '-') : c ≠ d := by
  rintro rfl
  obtain h | h := h
  · rw [h] at digit
    cases digit
  · exact minus h

theorem isSpace_of_isDigit {c : Char} (h : c.isDigit = true ∨ c = '-') : isSpace c = false := by
  have other (d : Char) (digit : d.isDigit = false) (minus : d ≠ '-') : decide (c = d) = false :=
    decide_eq_false (ne_of_isDigit h digit minus)
  rw [isSpace, other ' ' rfl (by decide), other '\t' rfl (by decide), other '\n' rfl (by decide),
    other '\r' rfl (by decide)]
  rfl

theorem head_write (h : v.IsExact) :
    ∃ c s, write v = c :: s ∧ isSpace c = false ∧ c ≠ ']' := by
  cases h with
  | null => exact ⟨'n', _, rfl, by decide, by decide⟩
  | bool b =>
    cases b
    · exact ⟨'f', _, rfl, by decide, by decide⟩
    · exact ⟨'t', _, rfl, by decide, by decide⟩
  | @int n low high =>
    obtain ⟨c, s, hs, first⟩ := exists_decimalInt_eq_cons n
    exact ⟨c, s, hs, isSpace_of_isDigit first, ne_of_isDigit first rfl (by decide)⟩
  | string s => exact ⟨'"', _, rfl, by decide, by decide⟩
  | array each => exact ⟨'[', _, rfl, by decide, by decide⟩
  | object sorted each => exact ⟨'\x7b', _, rfl, by decide, by decide⟩

theorem head_writeItems (h : v.IsExact) (vs : List Value) (r : List Char) :
    ∃ c s, writeItems (v :: vs) ++ r = c :: s ∧ isSpace c = false ∧ c ≠ ']' := by
  obtain ⟨c, s, hs, space, bracket⟩ := head_write h
  cases vs with
  | nil => exact ⟨c, s ++ r, by rw [writeItems, hs, List.cons_append], space, bracket⟩
  | cons w vs =>
    exact ⟨c, _, by rw [writeItems, hs, List.cons_append, List.cons_append], space, bracket⟩

theorem head_writeFields (f : String × Value) (fields : Fields) (r : List Char) :
    ∃ s, writeFields (f :: fields) ++ r = '"' :: s := by
  cases fields with
  | nil => exact ⟨_, rfl⟩
  | cons g fields => exact ⟨_, rfl⟩

/-! ### Reading -/

theorem readValue_number {c : Char} (h : c.isDigit = true ∨ c = '-') (s : List Char) :
    readValue (fuel + 1) (c :: s) = (scanNumber (c :: s)).map fun (t, r) => (.number t, r) := by
  have other (d : Char) (digit : d.isDigit = false) (minus : d ≠ '-') (s' : List Char) :
      c :: s ≠ d :: s' := fun hs => ne_of_isDigit h digit minus (List.cons.inj hs).1
  rw [readValue, skipSpace_cons (isSpace_of_isDigit h)]
  split
  · exact absurd ‹_› (other '"' rfl (by decide) _)
  · exact absurd ‹_› (other '[' rfl (by decide) _)
  · exact absurd ‹_› (other '\x7b' rfl (by decide) _)
  · exact absurd ‹_› (other 'n' rfl (by decide) _)
  · exact absurd ‹_› (other 't' rfl (by decide) _)
  · exact absurd ‹_› (other 'f' rfl (by decide) _)
  · rfl

theorem Spells.int {n : Int} (h : Value.inRange n = true) :
    Spells (.int n) (.number (Text.decimalInt n).toList) where
  read fuel r enough ends := by
    obtain ⟨c, s, hs, first⟩ := exists_decimalInt_eq_cons n
    have scanned := scanNumber_decimalInt n ends
    rw [write] at enough ⊢
    cases fuel with
    | zero => simp [hs] at enough
    | succ fuel =>
      rw [hs, List.cons_append] at scanned ⊢
      rw [readValue_number first, scanned]
      rfl
  value := number?_decimalInt h

theorem Spells.string (s : String) : Spells (.string s) (.string (spelled s)) where
  read fuel r enough _ := by
    cases fuel with
    | zero => simp [write, writeString] at enough
    | succ fuel =>
      rw [write, writeString_append, readValue, skipSpace_cons rfl]
      simp only [scanString_spelled, Option.map_some]
  value := by
    rw [Tree.value?, string?_spelled]
    rfl

/-- Items are read up to the bracket that closes them. -/
theorem readItems_writeItems (each : List.Forall₂ Spells vs ts) (ne_nil : vs ≠ [])
    (enough : (writeItems vs).length < fuel) (r : List Char) :
    readItems fuel (writeItems vs ++ ']' :: r) = some (ts, r) := by
  induction each generalizing fuel with
  | nil => exact absurd rfl ne_nil
  | @cons v t vs ts spells each ih =>
    obtain ⟨fuel, rfl⟩ : ∃ f, fuel = f + 1 := Nat.exists_eq_succ_of_ne_zero (by omega)
    cases vs with
    | nil =>
      cases each
      rw [writeItems] at enough ⊢
      have ends : EndsNumber (']' :: r) := .cons rfl (by decide) (by decide) (by decide) r
      rw [readItems, spells.read (by omega) ends]
      rfl
    | cons w vs =>
      rw [writeItems, List.length_append, List.length_cons] at enough
      have ends : EndsNumber (',' :: (writeItems (w :: vs) ++ ']' :: r)) :=
        .cons rfl (by decide) (by decide) (by decide) _
      have shorter : (writeItems (w :: vs)).length < fuel := by omega
      have rest := ih (List.cons_ne_nil _ _) shorter
      rw [writeItems, List.append_assoc, List.cons_append, readItems,
        spells.read (by omega) ends]
      simp only [Option.bind_eq_bind, Option.bind_some, skipSpace_cons (c := ',') rfl, rest,
        Option.map_some]

/-- Members are read up to the brace that closes them. -/
theorem readMembers_writeFields (each : List.Forall₂ SpellsField fields ms) (ne_nil : fields ≠ [])
    (enough : (writeFields fields).length < fuel) (r : List Char) :
    readMembers fuel (writeFields fields ++ '\x7d' :: r) = some (ms, r) := by
  induction each generalizing fuel with
  | nil => exact absurd rfl ne_nil
  | @cons f m fields ms member each ih =>
    obtain ⟨name, v⟩ := f
    obtain ⟨label, t⟩ := m
    obtain ⟨rfl, spells⟩ := member
    obtain ⟨fuel, rfl⟩ : ∃ f, fuel = f + 1 := Nat.exists_eq_succ_of_ne_zero (by omega)
    cases fields with
    | nil =>
      cases each
      rw [writeFields, List.length_append, List.length_cons] at enough
      have ends : EndsNumber ('\x7d' :: r) := .cons rfl (by decide) (by decide) (by decide) r
      rw [writeFields, List.append_assoc, writeString_append, readMembers, skipSpace_cons rfl]
      simp only [scanString_spelled, Option.bind_eq_bind, Option.bind_some, List.cons_append,
        skipSpace_cons (c := ':') rfl, spells.read (show (write v).length ≤ fuel by omega) ends,
        skipSpace_cons (c := '\x7d') rfl]
      rfl
    | cons g fields =>
      rw [writeFields, List.length_append, List.length_append, List.length_cons,
        List.length_cons] at enough
      have ends : EndsNumber (',' :: (writeFields (g :: fields) ++ '\x7d' :: r)) :=
        .cons rfl (by decide) (by decide) (by decide) _
      have shorter : (writeFields (g :: fields)).length < fuel := by omega
      have rest := ih (List.cons_ne_nil _ _) shorter
      rw [writeFields, List.append_assoc, List.append_assoc, writeString_append, readMembers,
        skipSpace_cons rfl]
      simp only [scanString_spelled, Option.bind_eq_bind, Option.bind_some, List.cons_append,
        skipSpace_cons (c := ':') rfl, spells.read (show (write v).length ≤ fuel by omega) ends,
        skipSpace_cons (c := ',') rfl, rest, Option.map_some]

/-! ### Values of trees -/

theorem valueItems?_of_spells (each : List.Forall₂ Spells vs ts) : valueItems? ts = some vs := by
  induction each with
  | nil => rfl
  | cons spells each ih =>
    rw [valueItems?, spells.value, ih]
    rfl

/-- The members set their fields one after the other. -/
theorem valueMembers?_of_spells (each : List.Forall₂ SpellsField fields ms) (acc : Fields) :
    valueMembers? ms acc = some (fields.foldl (fun acc (n, v) => acc.insert n v) acc) := by
  induction each generalizing acc with
  | nil => rfl
  | @cons f m fields ms member each ih =>
    obtain ⟨name, v⟩ := f
    obtain ⟨label, t⟩ := m
    obtain ⟨rfl, spells⟩ := member
    rw [valueMembers?, string?_spelled, spells.value]
    exact ih _

theorem Spells.array (exact : ∀ v ∈ vs, v.IsExact) (each : List.Forall₂ Spells vs ts) :
    Spells (.array vs) (.array ts) where
  read fuel r enough ends := by
    rw [write, List.length_append, List.length_cons, List.length_singleton] at enough
    obtain ⟨fuel, rfl⟩ : ∃ f, fuel = f + 1 := Nat.exists_eq_succ_of_ne_zero (by omega)
    rw [write, List.append_assoc, List.singleton_append, List.cons_append, readValue,
      skipSpace_cons rfl]
    cases vs with
    | nil =>
      cases each
      rfl
    | cons v vs =>
      have shorter : (writeItems (v :: vs)).length < fuel := by omega
      have read := readItems_writeItems each (List.cons_ne_nil _ _) shorter r
      obtain ⟨c, s, hs, space, bracket⟩ :=
        head_writeItems (exact v List.mem_cons_self) vs (']' :: r)
      rw [hs] at read ⊢
      simp only [skipSpace_cons space]
      split
      · exact absurd (List.cons.inj ‹_›).1 bracket
      · rw [read]
        rfl
  value := by
    rw [Tree.value?, valueItems?_of_spells each]
    rfl

/-- An object is read with its members in the order in which they are written. -/
theorem readValue_writeFields (each : List.Forall₂ SpellsField fields ms)
    (enough : (writeFields fields).length + 2 ≤ fuel) (r : List Char) :
    readValue fuel ('\x7b' :: (writeFields fields ++ '\x7d' :: r)) = some (.object ms, r) := by
  obtain ⟨fuel, rfl⟩ : ∃ f, fuel = f + 1 := Nat.exists_eq_succ_of_ne_zero (by omega)
  rw [readValue, skipSpace_cons rfl]
  cases fields with
  | nil =>
    cases each
    rfl
  | cons f fields =>
    have shorter : (writeFields (f :: fields)).length < fuel := by omega
    have read := readMembers_writeFields each (List.cons_ne_nil _ _) shorter r
    obtain ⟨s, hs⟩ := head_writeFields f fields ('\x7d' :: r)
    rw [hs] at read ⊢
    simp only [skipSpace_cons (c := '"') rfl]
    split
    · exact absurd (List.cons.inj ‹_›).1 (by decide)
    · rw [read]
      rfl

theorem value?_object (each : List.Forall₂ SpellsField fields ms) :
    (Tree.object ms).value? = some (.object (Fields.ofList fields)) := by
  rw [Tree.value?, valueMembers?_of_spells each]
  rfl

theorem Spells.object (sorted : fields.IsSorted) (each : List.Forall₂ SpellsField fields ms) :
    Spells (.object fields) (.object ms) where
  read fuel r enough _ := by
    rw [write, List.length_append, List.length_cons, List.length_singleton] at enough
    rw [write, List.append_assoc, List.singleton_append, List.cons_append]
    exact readValue_writeFields each enough r
  value := by
    rw [value?_object each, Fields.ofList_eq_of_perm sorted (List.Perm.refl _)]

theorem Spells.null : Spells .null .null where
  read fuel r enough _ := by
    obtain ⟨fuel, rfl⟩ : ∃ f, fuel = f + 1 :=
      Nat.exists_eq_succ_of_ne_zero (Nat.ne_zero_of_lt (show 3 < fuel from enough))
    rfl
  value := rfl

theorem Spells.bool (b : Bool) : Spells (.bool b) (.bool b) where
  read fuel r enough _ := by
    have pos : 3 < fuel := by
      cases b
      · exact Nat.lt_of_succ_lt enough
      · exact enough
    obtain ⟨fuel, rfl⟩ : ∃ f, fuel = f + 1 :=
      Nat.exists_eq_succ_of_ne_zero (Nat.ne_zero_of_lt pos)
    cases b
    · rfl
    · rfl
  value := rfl

/-- Related elements make related lists. -/
theorem exists_forall₂ {α β : Type} {R : α → β → Prop} {as : List α} (h : ∀ a ∈ as, ∃ b, R a b) :
    ∃ bs, List.Forall₂ R as bs := by
  induction as with
  | nil => exact ⟨[], .nil⟩
  | cons a as ih =>
    obtain ⟨b, first⟩ := h a List.mem_cons_self
    obtain ⟨bs, rest⟩ := ih fun x mem => h x (List.mem_cons_of_mem _ mem)
    exact ⟨b :: bs, .cons first rest⟩

theorem exists_spellsField {f : String × Value}
    (h : ∃ t, Spells f.2 t ∧ t.depth = f.2.depth) :
    ∃ m, SpellsField f m ∧ m.2.depth = f.2.depth := by
  obtain ⟨t, spells, depth⟩ := h
  exact ⟨(spelled f.1, t), ⟨rfl, spells⟩, depth⟩

theorem depthItems_eq (each : List.Forall₂ (fun (v : Value) (t : Tree) => t.depth = v.depth) vs ts) :
    depthItems ts = Value.depthItems vs := by
  induction each with
  | nil => rfl
  | cons same each ih => rw [depthItems, Value.depthItems, same, ih]

theorem depthMembers_eq (each : List.Forall₂
    (fun (f : String × Value) (m : List Char × Tree) => m.2.depth = f.2.depth) fields ms) :
    depthMembers ms = Value.depthFields fields := by
  induction each with
  | nil => rfl
  | cons same each ih => rw [depthMembers, Value.depthFields, same, ih]

/-- Every value without floating point numbers is spelled by its text, and is as deep as what spells
it. -/
theorem exists_spells (h : v.IsExact) : ∃ t, Spells v t ∧ t.depth = v.depth := by
  induction h with
  | null => exact ⟨.null, .null, rfl⟩
  | bool b => exact ⟨.bool b, .bool b, rfl⟩
  | @int n low high =>
    have range : Value.inRange n = true := by
      rw [Value.inRange, Bool.and_eq_true, decide_eq_true_eq, decide_eq_true_eq]
      omega
    exact ⟨_, .int range, rfl⟩
  | string s => exact ⟨_, .string s, rfl⟩
  | array exact ih =>
    obtain ⟨ts, each⟩ := exists_forall₂ ih
    refine ⟨.array ts, .array exact (each.imp fun _ _ both => both.1), ?_⟩
    rw [Tree.depth, Value.depth, depthItems_eq (each.imp fun _ _ both => both.2)]
  | object sorted exact ih =>
    obtain ⟨ms, each⟩ := exists_forall₂ fun f mem => exists_spellsField (ih f mem)
    refine ⟨.object ms, .object sorted (each.imp fun _ _ both => both.1), ?_⟩
    rw [Tree.depth, Value.depth, depthMembers_eq (each.imp fun _ _ both => both.2)]

theorem exists_spellsFields (h : ∀ f ∈ fields, f.2.IsExact) :
    ∃ ms, List.Forall₂ (fun f m => SpellsField f m ∧ m.2.depth = f.2.depth) fields ms :=
  exists_forall₂ fun f mem => exists_spellsField (exists_spells (h f mem))

theorem Spells.tree_read? {t : Tree} (spells : Spells v t) : Tree.read? (write v) = some t := by
  have ends : EndsNumber [] := fun c hc => by cases hc
  have read := spells.read (Nat.le_succ _) ends
  rw [List.append_nil] at read
  rw [Tree.read?, read]
  rfl

/-- A value is read back from its text. -/
theorem read?_write (h : v.IsExact) : read? (String.ofList (write v)) = some v := by
  obtain ⟨t, spells, -⟩ := exists_spells h
  rw [read?, String.toList_ofList, spells.tree_read?]
  exact spells.value

/-- The tree that is read where an object is written has its members in the order in which they are
written. -/
theorem Tree.read?_writeFields (each : List.Forall₂ SpellsField fields ms) :
    Tree.read? ('\x7b' :: (writeFields fields ++ ['\x7d'])) = some (.object ms) := by
  have enough : (writeFields fields).length + 2 ≤
      ('\x7b' :: (writeFields fields ++ ['\x7d'])).length + 1 := by simp
  rw [Tree.read?, readValue_writeFields each enough]
  rfl

/-- An object is read back with its fields sorted, in whatever order they are written. -/
theorem read?_writeFields (h : ∀ f ∈ fields, f.2.IsExact) :
    read? (String.ofList ('\x7b' :: (writeFields fields ++ ['\x7d']))) =
      some (.object (Fields.ofList fields)) := by
  obtain ⟨ms, each⟩ := exists_spellsFields h
  have spells := each.imp fun _ _ both => both.1
  rw [read?, String.toList_ofList, Tree.read?_writeFields spells, Option.bind_some]
  exact value?_object spells

/-! ### No control characters -/

theorem mem_writeItems {c : Char} (mem : c ∈ writeItems vs) : c = ',' ∨ ∃ v ∈ vs, c ∈ write v := by
  induction vs with
  | nil => exact absurd mem List.not_mem_nil
  | cons v vs ih =>
    cases vs with
    | nil => exact .inr ⟨v, List.mem_cons_self, mem⟩
    | cons w vs =>
      rw [writeItems, List.mem_append, List.mem_cons] at mem
      obtain first | comma | rest := mem
      · exact .inr ⟨v, List.mem_cons_self, first⟩
      · exact .inl comma
      · obtain comma | ⟨x, inside, rest⟩ := ih rest
        · exact .inl comma
        · exact .inr ⟨x, List.mem_cons_of_mem _ inside, rest⟩

theorem mem_writeFields {c : Char} (mem : c ∈ writeFields fields) :
    c = ',' ∨ c = ':' ∨ ∃ f ∈ fields, c ∈ writeString f.1 ∨ c ∈ write f.2 := by
  induction fields with
  | nil => exact absurd mem List.not_mem_nil
  | cons f fields ih =>
    cases fields with
    | nil =>
      rw [writeFields, List.mem_append, List.mem_cons] at mem
      obtain name | colon | value := mem
      · exact .inr (.inr ⟨f, List.mem_cons_self, .inl name⟩)
      · exact .inr (.inl colon)
      · exact .inr (.inr ⟨f, List.mem_cons_self, .inr value⟩)
    | cons g fields =>
      rw [writeFields, List.mem_append, List.mem_append, List.mem_cons, List.mem_cons] at mem
      obtain (name | colon | value) | comma | rest := mem
      · exact .inr (.inr ⟨f, List.mem_cons_self, .inl name⟩)
      · exact .inr (.inl colon)
      · exact .inr (.inr ⟨f, List.mem_cons_self, .inr value⟩)
      · exact .inl comma
      · obtain comma | colon | ⟨x, inside, rest⟩ := ih rest
        · exact .inl comma
        · exact .inr (.inl colon)
        · exact .inr (.inr ⟨x, List.mem_cons_of_mem _ inside, rest⟩)

theorem le_of_mem_writeFields_of {c : Char}
    (each : ∀ f ∈ fields, c ∈ write f.2 → 32 ≤ c.toNat) (mem : c ∈ writeFields fields) :
    32 ≤ c.toNat := by
  obtain rfl | rfl | ⟨f, inside, name | value⟩ := mem_writeFields mem
  · decide
  · decide
  · exact le_of_mem_writeString name
  · exact each f inside value

theorem le_of_mem_write (h : v.IsExact) {c : Char} (mem : c ∈ write v) : 32 ≤ c.toNat := by
  induction h with
  | null =>
    have all : ∀ d ∈ write .null, 32 ≤ d.toNat := by simp [write]
    exact all c mem
  | bool b =>
    have all : ∀ b, ∀ d ∈ write (.bool b), 32 ≤ d.toNat := by simp [write]
    exact all b c mem
  | int low high => exact le_of_mem_decimalInt mem
  | string s => exact le_of_mem_writeString mem
  | array exact ih =>
    rw [write, List.mem_append, List.mem_cons, List.mem_singleton] at mem
    obtain (rfl | mem) | rfl := mem
    · decide
    · obtain rfl | ⟨v, inside, mem⟩ := mem_writeItems mem
      · decide
      · exact ih v inside mem
    · decide
  | object sorted exact ih =>
    rw [write, List.mem_append, List.mem_cons, List.mem_singleton] at mem
    obtain (rfl | mem) | rfl := mem
    · decide
    · exact le_of_mem_writeFields_of ih mem
    · decide

theorem le_of_mem_writeFields (h : ∀ f ∈ fields, f.2.IsExact) {c : Char}
    (mem : c ∈ writeFields fields) : 32 ≤ c.toNat :=
  le_of_mem_writeFields_of (fun f inside => le_of_mem_write (h f inside)) mem

end HouseRules.Json
