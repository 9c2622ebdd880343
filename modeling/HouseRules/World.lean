import HouseRules.FileTree.Paths

/-! What commands act on: a file tree, the variables of the environment, what was written to the
standard output, and a clock. -/

namespace HouseRules

/-- A state of the world. The clock counts seconds. In a slow world a program that waits does so
past every time limit. -/
structure World where
  tree : FileTree
  env : List (String × String)
  output : List UInt8
  clock : Nat
  slow : Bool

namespace World

/-- The value of a variable. -/
def lookup? (w : World) (name : String) : Option String :=
  (w.env.find? fun v => v.1 = name).map Prod.snd

/-- The directory that holds the configuration of the user: the one that a variable names by an
absolute path, or the usual one at home. -/
def configDir? (w : World) : Option String :=
  match (w.lookup? "XDG_CONFIG_HOME").filter Path.isAbsolute with
  | some dir => some dir
  | none =>
    ((w.lookup? "HOME").filter (!·.isEmpty)).map fun home => Path.join home ".config"

end World

/-- A state that a world is part of. -/
class HasWorld (σ : Type) where
  world : σ → World
  withWorld : World → σ → σ

instance : HasWorld World := ⟨id, fun w _ => w⟩

end HouseRules
