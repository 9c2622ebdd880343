import HouseRules.Cache
import HouseRules.Proofs.FileTree.Names
import HouseRules.Proofs.Text.ByteSize

/-! Where the cache keeps a source: in a directory that is named by 64 hexadecimal digits. -/

namespace HouseRules

/-! ### Digests as names -/

namespace Text

theorem hexDigit_mem {n : Nat} (h : n < 16) : hexDigit n ∈ "0123456789abcdef".toList := by
  revert h
  revert n
  decide

theorem mem_hexDigits {width n : Nat} {c : Char} (h : c ∈ hexDigits width n) :
    c ∈ "0123456789abcdef".toList := by
  induction width generalizing n with
  | zero => exact absurd h List.not_mem_nil
  | succ width ih =>
    rw [hexDigits, List.mem_append, List.mem_singleton] at h
    obtain h | rfl := h
    · exact ih h
    · exact hexDigit_mem (Nat.mod_lt n (by decide))

end Text

namespace Source

theorem mem_hash {location : String} {c : Char} (h : c ∈ (hash location).toList) :
    c ∈ "0123456789abcdef".toList := by
  rw [hash, Digest.hexOf, String.toList_ofList, Digest.State.hex, List.mem_flatMap] at h
  obtain ⟨word, -, hc⟩ := h
  exact Text.mem_hexDigits hc

theorem length_hash (location : String) : (hash location).toList.length = 64 := by
  rw [hash, Digest.hexOf, String.toList_ofList, Digest.State.length_hex]

theorem utf8ByteSize_hash (location : String) : (hash location).utf8ByteSize = 64 := by
  have ascii : ("0123456789abcdef".toList.all fun c => c.utf8Size = 1) = true := by decide
  rw [← length_hash location, ← String.ofList_toList (s := hash location)]
  simpa using Text.utf8ByteSize_ofList fun c hc =>
    of_decide_eq_true (List.all_eq_true.1 ascii c (mem_hash hc))

/-- The directory of a source has a name of its own in the cache. -/
theorem isName_hash (location : String) : IsName (hash location) := by
  have ne (name : String) (h : name.toList.length ≠ 64) : hash location ≠ name := by
    rintro rfl
    exact h (length_hash location)
  refine ⟨ne _ (by decide), ne _ (by decide), ne _ (by decide), ?_, ?_⟩
  · intro h
    exact absurd (mem_hash h) (by decide)
  · rw [utf8ByteSize_hash]
    decide

end Source

/-! ### Paths in the cache -/

namespace Layout

section

variable {l : Layout} (hroot : l.root ≠ "") (hend : l.root.toList.getLast? ≠ some '/')
include hroot hend

theorem rulesDir_eq : l.rulesDir = l.root ++ "/rules" := by
  have rules : IsName "rules" := by decide
  rw [rulesDir, rules.join_eq hroot hend, String.append_assoc]
  rfl

/-- Where the list of what a source needs is kept. -/
theorem requirements_eq (location : String) :
    l.requirements location =
      l.root ++ "/rules" ++ "/" ++ Source.hash location ++ "/" ++ "requirements.txt" := by
  have rules : IsName "rules" := by decide
  have list : IsName "requirements.txt" := by decide
  have hash := Source.isName_hash location
  rw [requirements, storage, Source.storage, list.join_eq (hash.join_ne_empty _)
    (hash.getLast?_join _), rulesDir, hash.join_eq (rules.join_ne_empty _) (rules.getLast?_join _),
    ← rulesDir, rulesDir_eq hroot hend]

/-- The names on the way to it. -/
theorem pathNames_requirements (location : String) :
    FileTree.pathNames (l.requirements location) =
      FileTree.pathNames l.root ++ ["rules", Source.hash location, "requirements.txt"] := by
  have rules : IsName "rules" := by decide
  have list : IsName "requirements.txt" := by decide
  have hash := Source.isName_hash location
  rw [requirements, storage, Source.storage, rulesDir,
    FileTree.pathNames_join list (hash.join_ne_empty _) (hash.getLast?_join _),
    FileTree.pathNames_join hash (rules.join_ne_empty _) (rules.getLast?_join _),
    FileTree.pathNames_join rules hroot hend]
  simp

end

end Layout

end HouseRules
