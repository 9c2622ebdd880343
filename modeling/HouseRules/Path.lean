import HouseRules.Text.Pieces

/-! Paths as texts: names between slashes. A path is absolute when it starts with a slash.
Repeated slashes and the name `.` after the start do not count as components. -/

namespace HouseRules.Path

def isAbsolute (p : String) : Bool := p.toList.head? = some '/'

/-- A path read from a directory: an absolute one stands on its own, and there is one slash in
between. -/
def join (dir rel : String) : String :=
  if isAbsolute rel || dir.isEmpty then rel
  else if dir.toList.getLast? = some '/' then dir ++ rel
  else dir ++ "/" ++ rel

/-! ### Components -/

/-- What a path starts with before its names: the root, the current directory written out, or
nothing. -/
inductive Start where
  | root
  | current
  | bare
  deriving DecidableEq

namespace Start

def text : Start → List Char
  | root => ['/']
  | current => ['.']
  | bare => []

end Start

/-- The start of a path and the pieces between the slashes after it. -/
def split (p : List Char) : Start × List (List Char) :=
  match p with
  | '/' :: rest => (.root, Text.pieces '/' rest)
  | ['.'] => (.current, [[]])
  | '.' :: '/' :: rest => (.current, [] :: Text.pieces '/' rest)
  | p => (.bare, Text.pieces '/' p)

/-- Whether a piece is a component: empty pieces and `.` are not. -/
def isComponent (piece : List Char) : Bool := !(piece.isEmpty || piece = ['.'])

/-- The pieces up to the last component. -/
def trimPieces (pieces : List (List Char)) : List (List Char) :=
  (pieces.reverse.dropWhile (!isComponent ·)).reverse

def components (p : String) : List String :=
  ((split p.toList).2.filter isComponent).map String.ofList

/-- The path without its last component, if it has one. -/
def parent? (p : String) : Option String :=
  let (start, pieces) := split p.toList
  match trimPieces pieces with
  | [] => if start = .current then some "" else none
  | kept => some (String.ofList (start.text ++ Text.joinPieces '/' (trimPieces kept.dropLast)))

/-- The last component, unless it is `..`. -/
def fileName? (p : String) : Option String :=
  match (trimPieces (split p.toList).2).getLast? with
  | some name => if name = ['.', '.'] then none else some (String.ofList name)
  | none => none

/-! ### Stem and extension -/

/-- A name cut at its last dot. A dot at the very start does not cut. -/
def cutAtDot (name : List Char) : List Char × Option (List Char) :=
  let after := (name.reverse.takeWhile (· ≠ '.')).reverse
  let before := (name.reverse.dropWhile (· ≠ '.')).tail.reverse
  if before.isEmpty then (name, none) else (before, some after)

/-- The file name before its last dot. -/
def fileStem? (p : String) : Option String :=
  (fileName? p).map fun name => String.ofList (cutAtDot name.toList).1

/-- The file name after its last dot. -/
def extension? (p : String) : Option String :=
  (fileName? p).bind fun name => (cutAtDot name.toList).2.map String.ofList

/-- The path read from a working directory, without `.` components and repeated slashes. Two
slashes at the start, and one at the end, are kept. -/
def absolute (cwd p : String) : String :=
  let cs := p.toList
  let twoSlashes := cs.take 2 = ['/', '/'] && cs.take 3 ≠ ['/', '/', '/']
  let start := if isAbsolute p then (if twoSlashes then "//" else "/") else cwd
  let body := (components p).foldl join start
  if cs.getLast? = some '/' then join body "" else body

end HouseRules.Path
