import HouseRules.Cache
import HouseRules.Error
import HouseRules.FileTree.Paths

/-! Fetching local sources into the rule cache. What is stored for a source holds its real
directories, some left out, and copies of the files, also of those that links lead to. -/

namespace HouseRules

namespace Fetch

/-- The names of directories that are left out. -/
def skippedNames : List String := [".git", "__pycache__", ".venv"]

/-- A file tree after copying, and what went wrong, if anything. -/
structure Copied where
  tree : FileTree
  failure : Option Error

/-! ### Failures -/

def cannotClear (p : String) : Error := .io ("Failed to clear " ++ p) none

def cannotCreate (p : String) : Error := .io ("Failed to create " ++ p) none

def cannotWalk (p : String) : Error := .io ("Failed to walk " ++ p) none

def cannotCopy (p : String) : Error := .io ("Failed to copy " ++ p) none

/-! ### Copying -/

/-- Copies what was listed in a directory on the way through a source. The contents of a
directory are listed before its copy is made, so a target inside the source is met when its turn
comes. The paths of copies have no more bytes for further names than there is room for. -/
def copyListed (source : String) (room : Nat) (t : FileTree) (origin target : String) :
    List (String × Entry) → Copied
  | [] => ⟨t, none⟩
  | (name, entry) :: rest =>
    let path := Path.join origin name
    let copy := Path.join target name
    match entry with
    | .directory =>
      if skippedNames.contains name then copyListed source room t origin target rest
      else if _fits : name.utf8ByteSize + 1 ≤ room then
        match t.ensureDirectory copy with
        | none => ⟨t, some (cannotCreate copy)⟩
        | some made =>
          match t.listing? path with
          | none => ⟨made, some (cannotWalk source)⟩
          | some inside =>
            let copied :=
              copyListed source (room - (name.utf8ByteSize + 1)) made path copy inside
            if copied.failure.isSome then copied
            else copyListed source room copied.tree origin target rest
      else ⟨t, some (cannotCreate copy)⟩
    | _ =>
      match t.find? path with
      | some (.file content executable) =>
        match t.copyTo? copy content executable with
        | none => ⟨t, some (cannotCopy path)⟩
        | some t => copyListed source room t origin target rest
      | _ => copyListed source room t origin target rest
termination_by listed => (room, listed.length)

/-- The bytes that a path below a directory has for further names. -/
def roomBelow (target : String) : Nat := FileTree.pathLimit - 1 - target.utf8ByteSize

/-- Copies a directory to a new one. -/
def copyDirectory (t : FileTree) (origin target : String) : Copied :=
  match t.ensureDirectory target with
  | none => ⟨t, some (cannotCreate target)⟩
  | some t =>
    match t.listing? origin with
    | none => ⟨t, some (cannotWalk origin)⟩
    | some inside => copyListed origin (roomBelow target) t origin target inside

/-- The tree without a directory that a path leads to, or without the link at its end. -/
def clear? (t : FileTree) (p : String) : Option FileTree :=
  if t.exists? p then t.removeDirectory? p else some t

end Fetch

open Fetch

/-- Replaces what is stored for a source by its present content; the result is the directory
where that is. -/
def fetch (layout : Layout) (base location : String) (t : FileTree) :
    Except Error String × FileTree :=
  let origin := Source.resolve base location
  let storage := layout.storage location
  if Source.isRemote location then (.error (.unsupportedSource location), t)
  else if !t.isDirectory origin then (.error (.notFound origin), t)
  else
    match clear? t storage with
    | none => (.error (cannotClear storage), t)
    | some t =>
      match copyDirectory t origin storage with
      | ⟨t, none⟩ => (.ok storage, t)
      | ⟨t, some e⟩ => (.error e, t)

/-- Fetches sources one after another up to the first failure. -/
def fetchAll (layout : Layout) (base : String) :
    List String → FileTree → Except Error (List String) × FileTree
  | [], t => (.ok [], t)
  | location :: rest, t =>
    match fetch layout base location t with
    | (.error e, t) => (.error e, t)
    | (.ok storage, t) =>
      match fetchAll layout base rest t with
      | (.error e, t) => (.error e, t)
      | (.ok storages, t) => (.ok (storage :: storages), t)

end HouseRules
