import HouseRules.FileTree.Basic
import HouseRules.Path

/-! Paths in a file tree: where they lead, through links and parent directories, and what is
found or made there. -/

namespace HouseRules.FileTree

/-! ### Where a path leads -/

/-- The names of a path. One that ends with a slash leads into a directory, as does `.` at its
end. -/
def pathNames (p : String) : List String :=
  let names := ((Text.pieces '/' p.toList).filter (!·.isEmpty)).map String.ofList
  if p.toList.getLast? = some '/' then names ++ ["."] else names

/-- The number of bytes from which a path is too long. -/
def pathLimit : Nat := 4096

/-- The greatest number of bytes of a name. -/
def nameLimit : Nat := 255

/-- How many links may be followed on one way. -/
def linkLimit : Nat := 40

/-- The way along names from a directory. The last name need not lead to an entry; if it leads
to a link, that is followed or not. -/
def walk (t : FileTree) (follow : Bool) : Nat → Location → List String → Option Location
  | _, l, [] => some l
  | links, l, name :: rest =>
    if name = "." then walk t follow links l rest
    else if name = ".." then walk t follow links l.dropLast rest
    else if nameLimit < name.utf8ByteSize then none
    else match t.get? (l ++ [name]) with
      | some .directory => walk t follow links (l ++ [name]) rest
      | some (.file ..) => if rest.isEmpty then some (l ++ [name]) else none
      | some (.link target) =>
        if rest.isEmpty && !follow then some (l ++ [name])
        else match links with
          | 0 => none
          | links + 1 =>
            walk t follow links (if Path.isAbsolute target then [] else l)
              (pathNames target ++ rest)
      | none => if rest.isEmpty then some (l ++ [name]) else none
termination_by links _ names => (links, names.length)

section

variable {t : FileTree} {follow : Bool} {links : Nat} {l : Location} {name : String}
  {rest : List String}

theorem walk_dot : t.walk follow links l ("." :: rest) = t.walk follow links l rest := by
  rw [walk, if_pos rfl]

theorem walk_parent : t.walk follow links l (".." :: rest) = t.walk follow links l.dropLast rest := by
  rw [walk, if_neg (by decide), if_pos rfl]

/-- A walk goes on from a name by what stands there. -/
theorem walk_cons (hdot : name ≠ ".") (hparent : name ≠ "..")
    (hsize : ¬nameLimit < name.utf8ByteSize) :
    t.walk follow links l (name :: rest) =
      match t.get? (l ++ [name]) with
      | some .directory => t.walk follow links (l ++ [name]) rest
      | some (.file ..) => if rest.isEmpty then some (l ++ [name]) else none
      | some (.link target) =>
        if rest.isEmpty && !follow then some (l ++ [name])
        else match links with
          | 0 => none
          | links + 1 =>
            t.walk follow links (if Path.isAbsolute target then [] else l)
              (pathNames target ++ rest)
      | none => if rest.isEmpty then some (l ++ [name]) else none := by
  rw [walk, if_neg hdot, if_neg hparent, if_neg hsize]

end

/-- The location that a path leads to, whether or not something stands there. -/
def locate (t : FileTree) (follow : Bool) (p : String) : Option Location :=
  if p.isEmpty || pathLimit ≤ p.utf8ByteSize then none
  else t.walk follow linkLimit (if Path.isAbsolute p then [] else t.cwd) (pathNames p)

/-- What a path leads to, links followed. -/
def find? (t : FileTree) (p : String) : Option Entry := (t.locate true p).bind t.get?

def exists? (t : FileTree) (p : String) : Bool := (t.find? p).isSome

def isDirectory (t : FileTree) (p : String) : Bool :=
  match t.find? p with
  | some .directory => true
  | _ => false

def isFile (t : FileTree) (p : String) : Bool :=
  match t.find? p with
  | some (.file ..) => true
  | _ => false

/-- The content of the file that a path leads to. -/
def read? (t : FileTree) (p : String) : Option (List UInt8) :=
  match t.find? p with
  | some (.file content _) => some content
  | _ => none

/-- The names and entries in the directory that a path leads to, in the order of the names. There
are none in anything else. -/
def listing? (t : FileTree) (p : String) : Option (List (String × Entry)) :=
  match t.locate true p with
  | none => none
  | some l =>
    match t.get? l with
    | none => none
    | some .directory => some (t.listing l)
    | some _ => some []

/-! ### Directories -/

/-- Makes a directory where nothing stands in an existing one. -/
def makeDirectory? (t : FileTree) (p : String) : Option FileTree :=
  match t.locate false p with
  | none => none
  | some l => if (t.get? l).isSome then none else some (t.set l .directory)

/-- Makes a directory and those above it that are missing; those that are there are kept. The
number bounds how many are missing. -/
def makeDirectories : Nat → FileTree → String → Option FileTree
  | 0, _, _ => none
  | depth + 1, t, p =>
    if p.isEmpty || t.isDirectory p then some t
    else match t.makeDirectory? p with
      | some t => some t
      | none =>
        match Path.parent? p with
        | none => none
        | some parent =>
          if t.exists? parent then none
          else
            match makeDirectories depth t parent with
            | none => none
            | some t => if t.isDirectory p then some t else t.makeDirectory? p

/-- Makes a directory and those above it that are missing. -/
def ensureDirectory (t : FileTree) (p : String) : Option FileTree :=
  makeDirectories (p.length + 1) t p

/-- Removes a directory with everything below it, or a link; anything else stays. -/
def removeDirectory? (t : FileTree) (p : String) : Option FileTree :=
  match t.locate false p with
  | none => none
  | some l =>
    match t.get? l with
    | some .directory | some (.link _) => some (t.erase l)
    | _ => none

/-! ### Files -/

/-- Writes a file where a path leads, in place of one that is there. A file that was there keeps
its mode. -/
def write? (t : FileTree) (p : String) (content : List UInt8) : Option FileTree :=
  match t.locate true p with
  | none => none
  | some l =>
    match t.get? l with
    | some (.file _ executable) => some (t.set l (.file content executable))
    | none => some (t.set l (.file content false))
    | _ => none

/-- Puts a file where a path leads, in place of one that is there, with its mode. -/
def copyTo? (t : FileTree) (p : String) (content : List UInt8) (executable : Bool) :
    Option FileTree :=
  match t.locate true p with
  | none => none
  | some l =>
    match t.get? l with
    | some (.file ..) | none => some (t.set l (.file content executable))
    | _ => none

/-- Puts an entry where a path says, in place of what is there, with the directories above it. -/
def put? (t : FileTree) (p : String) (e : Entry) : Option FileTree := do
  let t ← t.ensureDirectory (← Path.parent? p)
  return t.set (← t.locate false p) e

/-- Removes what a path leads to, with everything below it. -/
def remove (t : FileTree) (p : String) : FileTree :=
  match t.locate false p with
  | some l => if l.isEmpty then t else t.erase l
  | none => t

/-- What is shown of a directory: everything below it; nothing of anything else. -/
def contents (t : FileTree) (p : String) : List (String × Option (List UInt8)) :=
  match t.locate true p with
  | some l => if t.get? l = some .directory then t.below l else []
  | none => []

end HouseRules.FileTree
