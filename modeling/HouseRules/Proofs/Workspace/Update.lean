import HouseRules.Proofs.Environment.Record
import HouseRules.Proofs.Fetch.Failure
import HouseRules.Workspace

/-! Updating a workspace one of whose sources cannot be fetched. The update ends with the error of
the first such source. Nothing is started, and of the cache nothing but the storages of the sources
before it has changed. -/

namespace HouseRules.Workspace

open FileTree Layout Fetch

-- only that digests are names matters, never what they are
attribute [local irreducible] Source.hash

section

open HasWorld (world withWorld)

variable {σ : Type} [HasWorld σ] {s : Workspace} {x : σ} {u : FileTree} {error : Error}

end

/-- Where the source `q` is stored in that. -/
def tangledStorage : Location := storageAt ["cfg", "rules"] "q"

/-- What the way through the link needs. -/
structure IsTangled (t : FileTree) : Prop where
  cfg : t.get? ["cfg"] = some .directory
  rules : t.get? ["cfg", "rules"] = some .directory
  storage : t.get? tangledStorage = some .directory
  link : t.get? ["l"] = some (.link (Path.join "/cfg/rules" (Source.hash "q")))

theorem IsTangled.walk_eq {t : FileTree} (h : IsTangled t) {rest : List String} (hrest : rest ≠ [])
    (follow : Bool) :
    t.walk follow linkLimit [] ("l" :: rest) = t.walk follow 39 tangledStorage rest := by
  have hash := Source.isName_hash "q"
  obtain ⟨target, htarget⟩ : ∃ target, target = Path.join "/cfg/rules" (Source.hash "q") := ⟨_, rfl⟩
  have names : pathNames target = ["cfg", "rules", Source.hash "q"] := by
    rw [htarget, pathNames_join hash (by decide) (by decide)]
    rfl
  have absolute : Path.isAbsolute target = true := by
    rw [htarget, Path.isAbsolute_join hash (by decide)]
    rfl
  rw [walk, if_neg (by decide), if_neg (by decide), if_neg (by decide)]
  simp only [List.nil_append, h.link, ← htarget, linkLimit, List.isEmpty_eq_false_iff.2 hrest,
    Bool.false_and, Bool.false_eq_true, if_false, absolute, if_true, names]
  exact (walk_of_directory (by decide) h.cfg).trans <|
    (walk_of_directory (by decide) h.rules).trans <| walk_of_directory hash h.storage

end HouseRules.Workspace
