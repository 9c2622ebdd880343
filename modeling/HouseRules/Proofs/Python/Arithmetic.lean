import HouseRules.Proofs.Python.Rendering

/-! Expressions of integer tokens, signs and parentheses. Such an expression has its exact number as
its value if all its parts have numbers that a value can hold, and no value otherwise. -/

namespace HouseRules.Python.Expr

/-- An expression of integer tokens, signs and parentheses, and its number. -/
inductive Denotes : Expr → Int → Prop where
  | integer {token : List Char} {n : Nat} (spells : IntegerSpells token n) :
      Denotes (.integer token) n
  | minus {e : Expr} {n : Int} (operand : Denotes e n) : Denotes (.signed true e) (-n)
  | plus {e : Expr} {n : Int} (operand : Denotes e n) : Denotes (.signed false e) n
  | parenthesized {e : Expr} {n : Int} (inner : Denotes e n) : Denotes (.parenthesized e) n

/-- An expression is another one or stands in it behind signs and parentheses. -/
inductive IsPart (part : Expr) : Expr → Prop where
  | self : IsPart part part
  | signed {negative : Bool} {e : Expr} (h : IsPart part e) : IsPart part (.signed negative e)
  | parenthesized {e : Expr} (h : IsPart part e) : IsPart part (.parenthesized e)

/-- The number of every part of an expression fits. -/
def PartsFit (e : Expr) : Prop := ∀ part m, IsPart part e → Denotes part m → Fits m

variable {e : Expr} {m n : Int} {negative : Bool}

theorem Denotes.unique (h : Denotes e n) (h' : Denotes e m) : n = m := by
  induction h generalizing m with
  | integer spells =>
    cases h' with
    | integer spells' =>
      have same := (integerOf?_of_spells spells).symm.trans (integerOf?_of_spells spells')
      exact congrArg Int.ofNat (Option.some.inj same)
  | minus operand ih =>
    cases h' with
    | minus operand' => rw [ih operand']
  | plus operand ih =>
    cases h' with
    | plus operand' => exact ih operand'
  | parenthesized inner ih =>
    cases h' with
    | parenthesized inner' => exact ih inner'

/-! ### Parts -/

theorem Denotes.fits_iff (h : Denotes e n) : (∀ m, Denotes e m → Fits m) ↔ Fits n :=
  ⟨fun all => all n h, fun fits _ h' => h.unique h' ▸ fits⟩

theorem partsFit_integer {token : List Char} (h : Denotes (.integer token) n) :
    PartsFit (.integer token) ↔ Fits n := by
  rw [← h.fits_iff]
  constructor
  · exact fun all m => all _ m .self
  · intro all part m inner
    cases inner
    exact all m

theorem partsFit_signed (h : Denotes (.signed negative e) n) :
    PartsFit (.signed negative e) ↔ PartsFit e ∧ Fits n := by
  rw [← h.fits_iff]
  constructor
  · exact fun all => ⟨fun part m inner => all part m inner.signed, fun m => all _ m .self⟩
  · rintro ⟨inside, whole⟩ part m isPart
    cases isPart with
    | self => exact whole m
    | signed inner => exact inside part m inner

theorem partsFit_parenthesized :
    PartsFit (.parenthesized e) ↔ PartsFit e := by
  constructor
  · exact fun all part m inner => all part m inner.parenthesized
  · intro inside part m isPart denotes
    cases isPart with
    | self =>
      cases denotes with
      | parenthesized inner => exact inside e m .self inner
    | parenthesized inner => exact inside part m inner denotes

/-! ### Values -/

/-- An integer expression has its number as its value exactly if that of every part fits, and else
it has none. -/
theorem value?_eq_some_iff_partsFit (h : Denotes e n) (v : Value) :
    e.value? = some v ↔ v = .int n ∧ PartsFit e := by
  induction h generalizing v with
  | integer spells =>
    rw [value?, integerValue?, integerOf?_of_spells spells, Option.bind_some, ofInt?_eq_some_iff,
      partsFit_integer (.integer spells)]
  | @minus e n operand ih =>
    rw [value?, Option.bind_eq_some_iff, partsFit_signed operand.minus]
    simp only [ih]
    constructor
    · rintro ⟨_, ⟨rfl, inside⟩, hv⟩
      obtain ⟨rfl, fits⟩ := ofInt?_eq_some_iff.1 hv
      exact ⟨rfl, inside, fits⟩
    · rintro ⟨rfl, inside, fits⟩
      exact ⟨_, ⟨rfl, inside⟩, ofInt?_eq_some_iff.2 ⟨rfl, fits⟩⟩
  | @plus e n operand ih =>
    rw [value?, Option.bind_eq_some_iff, partsFit_signed operand.plus]
    simp only [ih]
    constructor
    · rintro ⟨_, ⟨rfl, inside⟩, hv⟩
      cases hv
      exact ⟨rfl, inside, inside e n .self operand⟩
    · rintro ⟨rfl, inside, -⟩
      exact ⟨_, ⟨rfl, inside⟩, rfl⟩
  | parenthesized inner ih =>
    rw [value?, ih, partsFit_parenthesized]

/-- A number that fits comes out of `-(-0xFFFF_FFFF_FFFF_FFFF)`, but its part does not. -/
theorem value?_eq_some_iff_partsFit_inner :
    let inner : Expr := .signed true (.integer "0xFFFF_FFFF_FFFF_FFFF".toList)
    Denotes (.signed true (.parenthesized inner)) (2 ^ 64 - 1) ∧
    ∀ v, (Expr.signed true (.parenthesized inner)).value? = some v ↔
      v = .int (2 ^ 64 - 1) ∧ PartsFit (.signed true (.parenthesized inner)) := by
  have numeral : Text.Numeral 16 "FFFFFFFFFFFFFFFF".toList (2 ^ 64 - 1) :=
    Text.Numeral.of_foldlM (by decide) (by decide)
  have spells : IntegerSpells "0xFFFF_FFFF_FFFF_FFFF".toList (2 ^ 64 - 1) := by
    show IntegerSpells (['0', 'x'] ++ "FFFF_FFFF_FFFF_FFFF".toList) (2 ^ 64 - 1)
    exact .intro (by decide) numeral (by decide) (by decide)
  have whole : Denotes (.signed true (.parenthesized (.signed true
      (.integer "0xFFFF_FFFF_FFFF_FFFF".toList)))) (2 ^ 64 - 1) :=
    .minus (.parenthesized (.minus (.integer spells)))
  exact ⟨whole, value?_eq_some_iff_partsFit whole⟩

end HouseRules.Python.Expr
