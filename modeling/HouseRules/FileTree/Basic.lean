import HouseRules.Text.Pieces

/-! File trees: directories, files and symbolic links at their places, seen from a working
directory. -/

namespace HouseRules

/-- What stands at a place of a file tree. -/
inductive Entry where
  | directory
  | file (content : List UInt8) (executable : Bool)
  | link (target : String)
  deriving DecidableEq

namespace Entry

def isDirectory : Entry → Bool
  | directory => true
  | _ => false

end Entry

/-- A place in a file tree: the names from the root on, none of them through a link. -/
abbrev Location := List String

/-- A file tree and the working directory from which relative paths are read. The root is always
a directory, and a location has at most one entry that counts, its first. -/
structure FileTree where
  cwd : Location
  entries : List (Location × Entry)

namespace FileTree

/-- The tree that holds the root only. -/
def empty : FileTree := ⟨[], []⟩

/-- What stands at a location. -/
def get? (t : FileTree) (l : Location) : Option Entry :=
  if l.isEmpty then some .directory else (t.entries.find? fun e => e.1 = l).map Prod.snd

/-- The tree with an entry put at a location. -/
def set (t : FileTree) (l : Location) (e : Entry) : FileTree :=
  { t with entries := (l, e) :: t.entries.filter fun x => x.1 ≠ l }

/-- The tree without a location and everything below it. -/
def erase (t : FileTree) (l : Location) : FileTree :=
  { t with entries := t.entries.filter fun x => !l.isPrefixOf x.1 }

theorem get?_set_self (t : FileTree) {l : Location} (h : l ≠ []) (e : Entry) :
    (t.set l e).get? l = some e := by
  simp [get?, set, h]

theorem get?_set_of_ne (t : FileTree) {l m : Location} (h : m ≠ l) (e : Entry) :
    (t.set l e).get? m = t.get? m := by
  have key (x : Location × Entry) : (x.1 ≠ l ∧ x.1 = m) ↔ x.1 = m :=
    ⟨And.right, fun e => ⟨e ▸ h, e⟩⟩
  simp [get?, set, Ne.symm h, List.find?_filter, key]

/-- The names and entries directly inside a location, in the order of the names. -/
def listing (t : FileTree) (l : Location) : List (String × Entry) :=
  let inside := t.entries.filterMap fun (p, e) =>
    match p.getLast? with
    | some name => if p.dropLast = l then some (name, e) else none
    | none => none
  inside.mergeSort fun a b => a.1 ≤ b.1

/-- The text of a location. -/
def textOf (l : Location) : String := "/" ++ Text.joinWith "/" l

/-- Everything below a location in the order of the shown names: directories with a slash at the
end, links with an at sign, and files with their content. -/
def below (t : FileTree) (l : Location) : List (String × Option (List UInt8)) :=
  let shown := t.entries.filterMap fun (p, e) =>
    if l.isPrefixOf p && p ≠ l then
      let name := Text.joinWith "/" (p.drop l.length)
      match e with
      | .directory => some (name ++ "/", none)
      | .link _ => some (name ++ "@", none)
      | .file content _ => some (name, some content)
    else none
  shown.mergeSort fun a b => a.1 ≤ b.1

end FileTree

end HouseRules
