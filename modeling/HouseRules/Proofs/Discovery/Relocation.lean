import HouseRules.Proofs.Discovery.Gathering
import HouseRules.Proofs.Path.Moves

/-! Discovery in a copy of a directory. It finds the rules that it finds in the directory, each
with the location of its copy, or the same error with the path of the copy. -/

namespace HouseRules

-- what the path of a copy is has no part in how rules are read
attribute [local irreducible] Path.moved Path.absolute

/-! ### Rules and errors of copies -/

/-- The rule with a directory in the place of another one. -/
def Rule.moved (source target : String) (r : Rule) : Rule :=
  { r with location := Path.moved source target r.location }

/-- The error with a directory in the place of another one. A file that cannot be read is named by
its path, and any other one by the path that it has from the working directory. -/
def DiscoveryError.moved (cwd source target : String) : DiscoveryError → DiscoveryError
  | unreadable path => unreadable (Path.moved source target path)
  | walk => walk
  | malformed file place =>
    malformed (Path.moved (Path.absolute cwd source) (Path.absolute cwd target) file) place
  | missingKey file function =>
    missingKey (Path.moved (Path.absolute cwd source) (Path.absolute cwd target) file) function
  | unsupportedDefault file function parameter expression =>
    unsupportedDefault (Path.moved (Path.absolute cwd source) (Path.absolute cwd target) file)
      function parameter expression
  | invalidPattern pattern => invalidPattern pattern

/-- What discovery finds, with a directory in the place of another one. -/
def Discovery.moved (cwd source target : String) (found : Except DiscoveryError (List Rule)) :
    Except DiscoveryError (List Rule) :=
  (found.map (List.map (Rule.moved (Path.absolute cwd source)
    (Path.absolute cwd target)))).mapError (DiscoveryError.moved cwd source target)

/-! ### Files -/

namespace RuleFile

variable {cwd source target location location' ruleset : String} {isEnabled : String → Bool}

section

variable (h : Path.moved (Path.absolute cwd source) (Path.absolute cwd target) location = location')
include h

theorem rule_moved (fn : Function) :
    rule ⟨location', ruleset, isEnabled⟩ fn =
      ((rule ⟨location, ruleset, isEnabled⟩ fn).map (Rule.moved (Path.absolute cwd source)
        (Path.absolute cwd target))).mapError (DiscoveryError.moved cwd source target) := by
  subst h
  rw [rule, rule]
  split
  · rfl
  · split <;> rfl

theorem parse_moved (text : String) :
    parse ⟨location', ruleset, isEnabled⟩ text =
      Discovery.moved cwd source target (parse ⟨location, ruleset, isEnabled⟩ text) := by
  rw [parse_eq, parse_eq]
  split
  · subst h
    rfl
  · exact mapM_congr fun fn _ => rule_moved h fn

end

end RuleFile

namespace Discovery

variable {t : FileTree} {f : Filter} {source target : String}

theorem rulesInFile_moved {directory file : String} (hdir : IsName directory)
    (hfile : IsName file) (ruleset : String)
    (same : t.read? (Path.join (Path.join target directory) file) =
      t.read? (Path.join (Path.join source directory) file)) :
    rulesInFile t f ruleset (Path.join (Path.join target directory) file) =
      moved (FileTree.textOf t.cwd) source target
        (rulesInFile t f ruleset (Path.join (Path.join source directory) file)) := by
  have hcwd : FileTree.textOf t.cwd ≠ "" := by simp [FileTree.textOf]
  have place (p : String) : Path.absolute (FileTree.textOf t.cwd)
      (Path.join (Path.join p directory) file) =
      Path.join (Path.join (Path.absolute (FileTree.textOf t.cwd) p) directory) file := by
    rw [Path.absolute_join hfile hcwd, Path.absolute_join hdir hcwd]
  rw [rulesInFile, rulesInFile, same]
  split
  · rw [moved, Except.map, Except.mapError, DiscoveryError.moved,
      Path.moved_join_join hdir hfile]
  · refine RuleFile.parse_moved ?_ _
    rw [place source, place target, Path.moved_join_join hdir hfile]

end Discovery

end HouseRules
