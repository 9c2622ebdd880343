import HouseRules.Toml.Line

/-! TOML documents: how the lines build up tables, and which of them would define something
twice. -/

namespace HouseRules.Toml

/-- A part of a document. A table is implicit when only longer headers or keys have named it,
and dotted when keys with dots have. The items of an array of tables are kept with the last one
first. -/
inductive Node where
  | value (v : Value)
  | table (implicit dotted : Bool) (entries : List (String × Node))
  | items (tables : List (List (String × Node)))
  deriving Inhabited

namespace Node

abbrev Entries := List (String × Node)

def find? (k : String) : Entries → Option Node
  | [] => none
  | (n, x) :: rest => if n = k then some x else find? k rest

def put (k : String) (x : Node) (entries : Entries) : Entries :=
  (k, x) :: entries.filter fun e => e.1 ≠ k

/-- A table as the description of its kind and its entries. -/
structure Table where
  implicit : Bool
  dotted : Bool
  entries : Entries

def Table.node (t : Table) : Node := .table t.implicit t.dotted t.entries

/-- The table at a path below another, changed. Missing tables on the way become implicit ones.
A key with dots may not go through a table that a header has defined. -/
def change (dotted : Bool) (f : Table → Option Table) : List String → Table → Option Table
  | [], t => f t
  | k :: ks, t =>
    match find? k t.entries with
    | none => do
      let inner ← change dotted f ks ⟨true, dotted, []⟩
      return { t with entries := put k inner.node t.entries }
    | some (.table implicit isDotted entries) =>
      if dotted && !implicit then none
      else do
        let inner ← change dotted f ks ⟨implicit, isDotted, entries⟩
        return { t with entries := put k inner.node t.entries }
    | some (.items (last :: more)) => do
      let inner ← change dotted f ks ⟨false, false, last⟩
      return { t with entries := put k (.items (inner.entries :: more)) t.entries }
    | some _ => none

/-- A table with one assignment more. Keys with dots and tables of headers do not mix. -/
def assign (path : List String) (v : Value) (t : Table) : Option Table :=
  match path.reverse with
  | [] => none
  | k :: before =>
    change true (fun t =>
      if t.dotted = before.isEmpty then none
      else match find? k t.entries with
        | none => some { t with entries := put k (.value v) t.entries }
        | some _ => none) before.reverse t

end Node

open Node

/-- A document while it is built: the finished tables, and the table of the last header with its
path. -/
structure Draft where
  root : Table
  path : List String
  isItem : Bool
  current : Table

namespace Draft

def empty : Draft := ⟨⟨false, false, []⟩, [], false, ⟨false, false, []⟩⟩

/-- The finished tables with the table of the last header among them. -/
def close (d : Draft) : Option Table :=
  match d.path.reverse with
  | [] => some d.current
  | k :: before =>
    change false (fun t =>
      if d.isItem then
        match find? k t.entries with
        | none => some { t with entries := put k (.items [d.current.entries]) t.entries }
        | some (.items ts) =>
          some { t with entries := put k (.items (d.current.entries :: ts)) t.entries }
        | some _ => none
      else match find? k t.entries with
        | none => some { t with entries := put k d.current.node t.entries }
        | some (.table true _ _) => some { t with entries := put k d.current.node t.entries }
        | some _ => none) before.reverse d.root

/-- The table that a header opens anew, taken out of the finished ones. -/
def reopened (root : Table) (before : List String) (k : String) : Option (Table × Table) := do
  let root ← change false some before root
  let rec descend : List String → Table → Option Table
    | [], t => some t
    | n :: ns, t =>
      match find? n t.entries with
      | some (.table i d es) => descend ns ⟨i, d, es⟩
      | some (.items (last :: _)) => descend ns ⟨false, false, last⟩
      | _ => none
  let parent ← descend before root
  match find? k parent.entries with
  | none => return (root, ⟨false, false, []⟩)
  | some (.table true false entries) => do
    let root ← change false
      (fun t => some { t with entries := t.entries.filter fun e => e.1 ≠ k }) before root
    return (root, ⟨false, false, entries⟩)
  | some _ => none

/-- The document after a header. -/
def openTable (d : Draft) (isItem : Bool) (path : List String) : Option Draft := do
  let root ← d.close
  match path.reverse with
  | [] => none
  | k :: before =>
    let before := before.reverse
    if isItem then
      let root ← change false (fun t =>
        match find? k t.entries with
        | none | some (.items _) => some t
        | some _ => none) before root
      return ⟨root, path, true, ⟨false, false, []⟩⟩
    else
      let (root, fresh) ← reopened root before k
      return ⟨root, path, false, fresh⟩

/-- The document after one line more. -/
def step (d : Draft) : Line → Option Draft
  | .header isItem path => d.openTable isItem path
  | .assignment path v => (assign path v d.current).map fun t => { d with current := t }

end Draft

namespace Node

mutual

def toValue : Node → Value
  | value v => v
  | table _ _ entries => .object (toFields entries)
  | items tables => .array (toObjects tables).reverse

def toFields : List (String × Node) → Fields
  | [] => []
  | (k, x) :: rest => (toFields rest).insert k x.toValue

def toObjects : List (List (String × Node)) → List Value
  | [] => []
  | t :: ts => .object (toFields t) :: toObjects ts

end

end Node

/-- The root table of a TOML document. A byte order mark may stand before it. -/
def read? (text : String) : Option Fields := do
  let s := match text.toList with
    | '\uFEFF' :: s => s
    | s => s
  let lines ← lines? (s.length + 1) s
  let draft ← lines.foldlM Draft.step Draft.empty
  let root ← draft.close
  return Node.toFields root.entries

end HouseRules.Toml
