import HouseRules.Python.CompoundStatement

/-! Reading whole source files. -/

namespace HouseRules.Python

open Reader

namespace Module

/-- All statements up to the end of the text. -/
def statements (g : Grammar) : Reader Module :=
  loop (fun acc => do
    let l ← look .statement true
    if l.start.rest.isEmpty then return .inr acc.reverse
    else return .inl ((← g.statement).reverse ++ acc)) []

/-- The module that a text spells, or the place where it stops being one. A statement that the
language no longer has counts as such a place when there is no other. -/
def read (source : List Char) : Except Place Module :=
  let start : ReaderState := ⟨Cursor.start source, [0], false, none⟩
  match (statements (grammar (source.length + 16))).run start with
  | .error p => .error p
  | .ok (m, s) =>
    match s.legacy with
    | some p => .error p
    | none => .ok m

end Module

end HouseRules.Python
