import HouseRules.Proofs.Python.Spelling
import HouseRules.Proofs.Value.Fields
import HouseRules.Python.Literal
import Mathlib.Algebra.Group.Int.Defs

/-! How literals render values: in any base and spelling of numbers and strings, as any display,
with fields in any order and parentheses anywhere. A literal has the value that it renders. -/

namespace HouseRules

namespace Python

/-- The starts of integer tokens and their bases. -/
def integerStarts : List (List Char × Nat) := [
  ([], 10), (['0', 'x'], 16), (['0', 'X'], 16), (['0', 'o'], 8), (['0', 'O'], 8),
  (['0', 'b'], 2), (['0', 'B'], 2)]

/-- An integer token spells a number by the digits of a base, with underscores among them. -/
inductive IntegerSpells : List Char → Nat → Prop where
  | intro {start digits body : List Char} {base n : Nat} (started : (start, base) ∈ integerStarts)
      (numeral : Text.Numeral base digits n) (ne_nil : digits ≠ [])
      (spaced : body.filter (· ≠ '_') = digits) : IntegerSpells (start ++ body) n

namespace Expr

mutual

/-- An expression is a literal for a value. -/
inductive Renders : Value → Expr → Prop where
  | null : Renders .null .null
  | bool (b : Bool) : Renders (.bool b) (.bool b)
  | natural {n : Nat} {token : List Char} (spells : IntegerSpells token n) :
      Renders (.int n) (.integer token)
  | negative {n : Nat} {e : Expr} (pos : 0 < n) (operand : Renders (.int n) e) :
      Renders (.int (-n)) (.signed true e)
  | string {s : String} {tokens : List (List Char)} (spells : TokensSpell tokens s) :
      Renders (.string s) (.string tokens)
  | array {kind : Display} {items : List Value} {es : List Expr} (each : RendersEach items es)
      (set_ne_nil : kind = .set → items ≠ []) : Renders (.array items) (.display kind es)
  | object {fields written : Fields} {pairs : List (Expr × Expr)} (perm : written.Perm fields)
      (each : RendersPairs written pairs) : Renders (.object fields) (.dict pairs)
  | parenthesized {v : Value} {e : Expr} (inner : Renders v e) : Renders v (.parenthesized e)

/-- Expressions are literals for values one by one. -/
inductive RendersEach : List Value → List Expr → Prop where
  | nil : RendersEach [] []
  | cons {v : Value} {e : Expr} {vs : List Value} {es : List Expr} (head : Renders v e)
      (tail : RendersEach vs es) : RendersEach (v :: vs) (e :: es)

/-- Pairs are literals for fields one by one, their keys for the names. -/
inductive RendersPairs : Fields → List (Expr × Expr) → Prop where
  | nil : RendersPairs [] []
  | cons {name : String} {v : Value} {k e : Expr} {fields : Fields} {pairs : List (Expr × Expr)}
      (key : Renders (.string name) k) (value : Renders v e) (tail : RendersPairs fields pairs) :
      RendersPairs ((name, v) :: fields) ((k, e) :: pairs)

end

/-! ### Integers -/

/-- The digits of a token are those of its start and its number, in lower case. -/
theorem plainDigits_append {start digits body : List Char} {base : Nat}
    (started : (start, base) ∈ integerStarts) (spaced : body.filter (· ≠ '_') = digits) :
    plainDigits (start ++ body) = start.map Char.toLower ++ digits.map Char.toLower := by
  have all : ∀ s ∈ integerStarts, s.1.filter (· ≠ '_') = s.1 := by decide
  rw [plainDigits, List.filter_append, all (start, base) started, spaced, List.map_append]

/-- No token of digits ends with a letter that makes it another number. -/
theorem getLast?_of_numeral (start : List Char) {base n : Nat} {digits : List Char}
    (numeral : Text.Numeral base digits n) (hbase : base ≤ 16) (ne_nil : digits ≠ []) :
    (start ++ digits).getLast? ≠ some 'j' ∧ (start ++ digits).getLast? ≠ some 'l' := by
  have letter (c : Char) (hc : ∀ d < 16, ¬Text.IsDigit c d) :
      (start ++ digits).getLast? ≠ some c := by
    rw [List.getLast?_append, List.getLast?_eq_some_getLast ne_nil, Option.some_or]
    intro h
    refine numeral.not_mem (fun d lt => hc d (by omega)) (?_ : c ∈ digits)
    exact Option.some.inj h ▸ List.getLast_mem ne_nil
  exact ⟨letter 'j' (by decide), letter 'l' (by decide)⟩

theorem ne_of_decimal {digits : List Char} {n : Nat} (numeral : Text.Numeral 10 digits n)
    {c : Char} (hc : ∀ d < 10, ¬Text.IsDigit c d) (ds : List Char) : digits ≠ '0' :: c :: ds := by
  rintro rfl
  exact numeral.not_mem hc (List.mem_cons_of_mem _ List.mem_cons_self)

/-- An integer token denotes the number that it spells. -/
theorem integerOf?_of_spells {token : List Char} {n : Nat} (h : IntegerSpells token n) :
    integerOf? token = some n := by
  obtain @⟨start, digits, body, base, n, started, numeral, ne_nil, spaced⟩ := h
  have all : ∀ s ∈ integerStarts, s.2 ≤ 16 := by decide
  have lower := numeral.toLower
  have lower_ne_nil : digits.map Char.toLower ≠ [] := by simpa using ne_nil
  obtain ⟨not_j, not_l⟩ := getLast?_of_numeral (start.map Char.toLower) lower
    (all (start, base) started) lower_ne_nil
  have number := lower.number? lower_ne_nil
  rw [integerOf?, plainDigits_append started spaced]
  simp only [not_j, not_l, decide_false, Bool.or_false, Bool.false_eq_true, if_false]
  simp only [integerStarts, List.mem_cons, Prod.mk.injEq, List.not_mem_nil, or_false] at started
  obtain ⟨rfl, rfl⟩ | ⟨rfl, rfl⟩ | ⟨rfl, rfl⟩ | ⟨rfl, rfl⟩ | ⟨rfl, rfl⟩ | ⟨rfl, rfl⟩ |
    ⟨rfl, rfl⟩ := started
  · rw [List.map_nil, List.nil_append]
    split
    · exact absurd ‹_› (ne_of_decimal lower (by decide) _)
    · exact absurd ‹_› (ne_of_decimal lower (by decide) _)
    · exact absurd ‹_› (ne_of_decimal lower (by decide) _)
    · exact number
  · exact number
  · exact number
  · exact number
  · exact number
  · exact number
  · exact number

/-- The numbers that a value can hold. -/
def Fits (n : Int) : Prop := -2 ^ 63 ≤ n ∧ n ≤ 2 ^ 64 - 1

theorem ofInt?_eq_some_iff {n : Int} {v : Value} : Value.ofInt? n = some v ↔ v = .int n ∧ Fits n := by
  rw [Value.ofInt?, Fits]
  simp only [Value.inRange, Bool.and_eq_true, decide_eq_true_eq, Option.ite_none_right_eq_some,
    Option.some.injEq]
  rw [and_comm, eq_comm]
  refine and_congr_right fun _ => ?_
  omega

theorem ofInt?_of_range {n : Int} (low : -2 ^ 63 ≤ n) (high : n ≤ 2 ^ 64 - 1) :
    Value.ofInt? n = some (.int n) :=
  ofInt?_eq_some_iff.2 ⟨rfl, low, high⟩

theorem stringOf?_of_spells {tokens : List (List Char)} {s : String} (h : TokensSpell tokens s) :
    stringOf? tokens = some s := by
  obtain ⟨parts, each, rfl⟩ := h
  have decoded : tokens.mapM decodeLiteral? = some parts := by
    induction each with
    | nil => rfl
    | cons head tail ih =>
      rw [List.mapM_cons, head.decodeLiteral?_eq, ih]
      rfl
  rw [stringOf?, decoded, Option.map_some]

/-! ### Values -/

mutual

theorem Renders.value?_eq {v : Value} {e : Expr} (h : Renders v e) (exact : v.IsExact) :
    e.value? = some v := by
  cases h with
  | null => rfl
  | bool b => rfl
  | natural spells =>
    cases exact with
    | int low high =>
      rw [value?, integerValue?, integerOf?_of_spells spells, Option.bind_some,
        ofInt?_of_range low high]
  | @negative n e pos operand =>
    cases exact with
    | int low high =>
      have inner := operand.value?_eq (.int (by omega) (by omega))
      rw [value?, inner, Option.bind_some, signedValue?, if_pos rfl, ofInt?_of_range low high]
  | string spells => rw [value?, stringOf?_of_spells spells, Option.map_some]
  | array each set_ne_nil =>
    cases exact with
    | array all => rw [value?, each.itemValues?_eq all, Option.map_some]
  | object perm each =>
    cases exact with
    | object sorted all =>
      have read := each.pairValues?_eq (fun f hf => all f (perm.mem_iff.1 hf)) []
      rw [value?, read, Option.map_some]
      exact congrArg (some <| Value.object ·) (Fields.ofList_eq_of_perm sorted perm)
  | parenthesized inner =>
    rw [value?]
    exact inner.value?_eq exact

theorem RendersEach.itemValues?_eq {vs : List Value} {es : List Expr} (h : RendersEach vs es)
    (exact : ∀ v ∈ vs, v.IsExact) : itemValues? es = some vs := by
  cases h with
  | nil => rfl
  | cons head tail =>
    have first := head.value?_eq (exact _ List.mem_cons_self)
    have rest := tail.itemValues?_eq fun v hv => exact v (List.mem_cons_of_mem _ hv)
    rw [itemValues?, first, rest]
    rfl

theorem RendersPairs.pairValues?_eq {written : Fields} {pairs : List (Expr × Expr)}
    (h : RendersPairs written pairs) (exact : ∀ f ∈ written, f.2.IsExact) (fields : Fields) :
    pairValues? pairs fields =
      some (written.foldl (fun fields (n, v) => fields.insert n v) fields) := by
  cases h with
  | nil => rfl
  | cons key value tail =>
    have name := key.value?_eq (.string _)
    have first := value.value?_eq (exact _ List.mem_cons_self)
    have rest := tail.pairValues?_eq fun f hf => exact f (List.mem_cons_of_mem _ hf)
    rw [pairValues?, name, first]
    exact rest _

end

/-- A literal has the value that it renders. -/
theorem value?_of_renders {v : Value} {e : Expr} (h : Renders v e) (exact : v.IsExact) :
    e.value? = some v :=
  h.value?_eq exact

/-- The least integer in a tuple, a set and strings of several forms, as fields that are not in
their order. -/
def sampleLiteral : Expr :=
  .parenthesized (.dict [
    (.string [['\'', '\\', 'x', 'e', '9', '\'']],
      .string [['u', '"', 'x', '"'], ['\'', '\'', '\'', '\\', 'n', '\'', '\'', '\'']]),
    (.parenthesized (.string [['r', '"', 'a', '"']]),
      .display .tuple [
        .signed true (.integer "0X8000_0000_0000_0000".toList),
        .display .set [.bool true, .null]])])

def sampleValue : Value :=
  .object [("a", .array [.int (-2 ^ 63), .array [.bool true, .null]]), ("é", .string "x\n")]

theorem sampleLiteral_renders : Renders sampleValue sampleLiteral := by
  have name : TokenSpells ['\'', '\\', 'x', 'e', '9', '\''] ['é'] := by
    have numeral : Text.Numeral 16 ['e', '9'] 'é'.toNat :=
      Text.Numeral.of_foldlM (by decide) (by decide)
    have body : Spells ('\\' :: 'x' :: (['e', '9'] ++ [])) ['é'] :=
      .hex (by decide) numeral rfl .nil
    show TokenSpells ([] ++ (['\''] ++ (['\\', 'x', 'e', '9'] ++ ['\'']))) ['é']
    exact .plain (by decide) (.single (by decide) (by decide)) body
  have prefixed : TokenSpells ['u', '"', 'x', '"'] ['x'] := by
    show TokenSpells (['u'] ++ (['"'] ++ (['x'] ++ ['"']))) ['x']
    exact .plain (by decide) (.single (by decide) (by decide)) (.plain (by decide) .nil)
  have tripled : TokenSpells ['\'', '\'', '\'', '\\', 'n', '\'', '\'', '\''] ['\n'] := by
    show TokenSpells ([] ++ (['\'', '\'', '\''] ++ (['\\', 'n'] ++ ['\'', '\'', '\'']))) ['\n']
    exact .plain (by decide) (.triple (by decide)) (.named (by decide) .nil)
  have raw : TokenSpells ['r', '"', 'a', '"'] ['a'] := by
    show TokenSpells (['r'] ++ (['"'] ++ (['a'] ++ ['"']))) ['a']
    exact .raw (by decide) (.single (by decide) (by decide))
  have least : IntegerSpells "0X8000_0000_0000_0000".toList (2 ^ 63) := by
    have numeral : Text.Numeral 16 "8000000000000000".toList (2 ^ 63) :=
      Text.Numeral.of_foldlM (by decide) (by decide)
    show IntegerSpells (['0', 'X'] ++ "8000_0000_0000_0000".toList) (2 ^ 63)
    exact .intro (by decide) numeral (by decide) (by decide)
  have tuple : Renders (.array [.int (-2 ^ 63), .array [.bool true, .null]])
      (.display .tuple [.signed true (.integer "0X8000_0000_0000_0000".toList),
        .display .set [.bool true, .null]]) := by
    refine .array (.cons (.negative (by decide) (.natural least)) (.cons ?_ .nil)) (by decide)
    exact .array (.cons (.bool true) (.cons .null .nil)) (by simp)
  refine .parenthesized (.object (List.Perm.swap _ _ []) (.cons ?_ ?_ (.cons ?_ tuple .nil)))
  · exact .string ⟨[['é']], .cons name .nil, by decide⟩
  · exact .string ⟨[['x'], ['\n']], .cons prefixed (.cons tripled .nil), by decide⟩
  · exact .parenthesized (.string ⟨[['a']], .cons raw .nil, by decide⟩)

theorem sampleValue_isExact : sampleValue.IsExact := by
  have inner : Value.IsExact (.array [.bool true, .null]) := by
    refine .array fun v hv => ?_
    obtain rfl | rfl : v = .bool true ∨ v = .null := by simpa using hv
    · exact .bool true
    · exact .null
  have tuple : Value.IsExact (.array [.int (-2 ^ 63), .array [.bool true, .null]]) := by
    refine .array fun v hv => ?_
    obtain rfl | rfl : v = .int (-2 ^ 63) ∨ v = .array [.bool true, .null] := by simpa using hv
    · exact .int (by decide) (by decide)
    · exact inner
  refine .object (List.pairwise_pair.2 (by decide)) fun f hf => ?_
  obtain rfl | rfl : f = ("a", .array [.int (-2 ^ 63), .array [.bool true, .null]]) ∨
      f = ("é", .string "x\n") := by simpa [sampleValue] using hf
  · exact tuple
  · exact .string "x\n"

theorem value?_sampleLiteral : sampleLiteral.value? = some sampleValue :=
  value?_of_renders sampleLiteral_renders sampleValue_isExact

end Expr

end Python

end HouseRules
