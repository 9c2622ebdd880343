import HouseRules.Proofs.Discovery.Calls

/-! The modules that discovered rules are imported as. An import takes a module's name apart at its
dots: what stands before the last of them are packages, each a directory in the one before. The name
of a rule's module is that of its file up to the ending, so an import looks for that file exactly
when the file's name has no further dot. -/

namespace HouseRules

-- the digits of a digest have no part in what is imported
attribute [local irreducible] Source.hash

/-! ### Last pieces -/

namespace Text

theorem getLast_isSuffix_joinPieces (sep : Char) {ps : List (List Char)} (hps : ps ≠ []) :
    ps.getLast hps <:+ joinPieces sep ps := by
  fun_induction joinPieces sep ps with
  | case1 => exact absurd rfl hps
  | case2 p => exact List.suffix_rfl
  | case3 p q ps ih =>
    rw [List.getLast_cons (List.cons_ne_nil q ps)]
    exact (ih (List.cons_ne_nil q ps)).trans
      ((List.suffix_cons sep _).trans (List.suffix_append p _))

/-- A text ends with its last piece, in which the separator does not occur. -/
theorem exists_splitAt (sep : Char) (s : String) :
    ∃ names last, splitAt sep s = names ++ [last] ∧ sep ∉ last.toList ∧
      ∃ before, s = before ++ last := by
  have nonempty := pieces_ne_nil sep s.toList
  obtain ⟨before, whole⟩ := getLast_isSuffix_joinPieces sep nonempty
  rw [joinPieces_pieces] at whole
  refine ⟨(pieces sep s.toList).dropLast.map String.ofList,
    String.ofList ((pieces sep s.toList).getLast nonempty), ?_, ?_, String.ofList before, ?_⟩
  · rw [splitAt, ← List.map_singleton, ← List.map_append, List.dropLast_append_getLast]
  · rw [String.toList_ofList]
    exact sep_not_mem_of_mem_pieces (List.getLast_mem nonempty)
  · rw [← String.ofList_append, whole, String.ofList_toList]

theorem splitAt_of_not_mem {sep : Char} {s : String} (h : sep ∉ s.toList) :
    splitAt sep s = [s] := by
  rw [splitAt, pieces_of_not_mem h, List.map_singleton, String.ofList_toList]

end Text

/-! ### Imports -/

/-- What a name of a file ends with is itself one, if it goes on before the ending. -/
theorem IsName.of_append {before last : String} (h : IsName (before ++ last ++ ".py")) :
    IsName (last ++ ".py") := by
  have long : 3 ≤ (last ++ ".py").toList.length := by simp
  refine ⟨?_, ?_, ?_, fun slash => h.slash_not_mem ?_, ?_⟩
  · rintro same
    simp [same] at long
  · rintro same
    simp [same] at long
  · rintro same
    simp [same] at long
  · rw [String.append_assoc, String.toList_append]
    exact List.mem_append_right _ slash
  · refine le_trans ?_ h.size_le
    simp only [String.utf8ByteSize_append]
    omega

namespace Invocation

/-- The file in which an import looks for the module of a call, if it looks in the directory of the
call. -/
def importedFile (i : Invocation) : String :=
  let names := Text.splitAt '.' i.moduleName
  Path.join (names.dropLast.foldl Path.join i.moduleDir) (names.getLastD "" ++ ".py")

/-- An import of a module looks for the file of that name exactly when the name has no dot. -/
theorem importedFile_eq_iff {i : Invocation} (hname : IsName (i.moduleName ++ ".py")) :
    i.importedFile = Path.join i.moduleDir (i.moduleName ++ ".py") ↔
      '.' ∉ i.moduleName.toList := by
  constructor
  · intro same
    obtain ⟨names, last, split, noDot, before, whole⟩ := Text.exists_splitAt '.' i.moduleName
    simp only [importedFile, split, List.dropLast_concat, List.getLastD_concat] at same
    -- only the last piece makes up the name of the file
    have files := congrArg Path.fileName? same
    rw [Path.fileName?_join (whole ▸ hname).of_append, Path.fileName?_join hname] at files
    exact (String.append_left_inj ".py").1 (Option.some.inj files) ▸ noDot
  · intro noDot
    simp [importedFile, Text.splitAt_of_not_mem noDot]

end Invocation

namespace Discovery

variable {t : FileTree} {s : RuleSettings} {rulesDir : String} {r : Rule}

/-- A rule is called from the module with the name of its file up to the ending. -/
theorem FoundIn.exists_module {storage : String} {v : Visit} (wf : t.WellFormed)
    (h : FoundIn t s rulesDir storage v r) (arguments : Fields) :
    ∃ i, Invocation.ofRule r arguments = .ok i ∧ i.moduleName ++ ".py" = v.file ∧
      Path.join i.moduleDir v.file = r.location ∧
      ('.' ∉ i.moduleName.toList ↔ i.importedFile = r.location) := by
  obtain ⟨i, called, call⟩ := h.exists_call wf arguments
  obtain ⟨stem, hstem, hfile⟩ := h.exists_moduleName? wf
  have name : i.moduleName = stem :=
    Option.some.inj ((modules_of_ofRule called).2.symm.trans hstem)
  have whole : i.moduleName ++ ".py" = v.file := by rw [name, hfile]
  refine ⟨i, called, whole, whole ▸ call.location, ?_⟩
  rw [← call.location, Invocation.importedFile_eq_iff]
  exact whole ▸ isName_of_holds wf h.isVisited.holds_file

/-- Every rule that is listed can be called, from the module with the name of its file up to the
ending. That name has no dot exactly when the name of the file has no other dot than that of the
ending, and exactly then an import looks for the file of the rule. -/
theorem listRules_modules {rules : List Rule} (wf : t.WellFormed)
    (listed : listRules t s rulesDir = .ok rules) :
    ∀ r ∈ rules, ∃ storage v, FoundIn t s rulesDir storage v r ∧
      ∀ arguments, ∃ i, Invocation.ofRule r arguments = .ok i ∧
        i.moduleName ++ ".py" = v.file ∧ Path.join i.moduleDir v.file = r.location ∧
        ('.' ∉ i.moduleName.toList ↔ v.file.toList.count '.' = 1) ∧
        ('.' ∉ i.moduleName.toList ↔ i.importedFile = r.location) := by
  intro r hr
  obtain ⟨storage, v, found⟩ := exists_foundIn_of_listRules wf listed hr
  refine ⟨storage, v, found, fun arguments => ?_⟩
  obtain ⟨i, called, whole, location, imported⟩ := found.exists_module wf arguments
  refine ⟨i, called, whole, location, ?_, imported⟩
  rw [← whole, String.toList_append, List.count_append, ← List.count_eq_zero,
    show (".py" : String).toList.count '.' = 1 by decide]
  omega

/-! ### A cache with a rule in any file -/

/-- The settings under which the cache of one source is listed. -/
def sourceSettings (source : String) : RuleSettings := ⟨[source], [], []⟩

section

variable {file : String} (hfile : IsName file)
  (extension : ∃ stem, stem ≠ "" ∧ file = stem ++ ".py") (source : String)
include hfile extension

theorem exists_listRules_cacheOf :
    ∃ rule, listRules (cacheOf (Source.hash source) file) (sourceSettings source) "/rules" =
      .ok [rule] := by
  have hash := Source.isName_hash source
  obtain ⟨rule, found⟩ := exists_rules_cacheOf hash hfile ⟨[], []⟩
  refine ⟨rule, ?_⟩
  rw [listRules_eq (f := ⟨[], []⟩) rfl, gather_rulesOfSource (wellFormed_cacheOf hash hfile)]
  simp only [visitsFor, sourceSettings, List.flatMap_cons, List.flatMap_nil, List.append_nil,
    Source.storage, visits_cacheOf hash hfile extension, List.map_cons, List.map_nil]
  exact gather_singleton_of_ok found

theorem file_of_foundIn_cacheOf {storage : String} {v : Visit}
    (h : FoundIn (cacheOf (Source.hash source) file) (sourceSettings source) "/rules" storage v r) :
    v.file = file := by
  have hash := Source.isName_hash source
  obtain ⟨other, hother, rfl⟩ := h.exists_source
  obtain rfl : other = source := by simpa [sourceSettings] using hother
  have visited := (mem_visits (wellFormed_cacheOf hash hfile) v).2 h.isVisited
  rw [Source.storage, visits_cacheOf hash hfile extension, List.mem_singleton] at visited
  rw [visited]

end

theorem listRules_modules_cacheOf :
    let t := cacheOf (Source.hash "./a") "checks.py"
    ∃ rule, t.WellFormed ∧ listRules t (sourceSettings "./a") "/rules" = .ok [rule] ∧
      ∀ r ∈ [rule], ∃ storage v, FoundIn t (sourceSettings "./a") "/rules" storage v r ∧
        ∀ arguments, ∃ i, Invocation.ofRule r arguments = .ok i ∧
          i.moduleName ++ ".py" = v.file ∧ Path.join i.moduleDir v.file = r.location ∧
          ('.' ∉ i.moduleName.toList ↔ v.file.toList.count '.' = 1) ∧
          ('.' ∉ i.moduleName.toList ↔ i.importedFile = r.location) := by
  intro t
  have wf : t.WellFormed := wellFormed_cacheOf (Source.isName_hash "./a") (by decide)
  obtain ⟨rule, listed⟩ :=
    exists_listRules_cacheOf (show IsName "checks.py" by decide) ⟨"checks", by decide, by decide⟩ "./a"
  exact ⟨rule, wf, listed, listRules_modules wf listed⟩

/-- A file with a dot before its ending has a rule that is called from a module with a dot. It is not
that file that an import of the module looks for, but one in a package. -/
theorem exists_module_with_dot :
    let t := cacheOf (Source.hash "./a") "v1.2.py"
    ∃ rule i, t.WellFormed ∧ listRules t (sourceSettings "./a") "/rules" = .ok [rule] ∧
      Invocation.ofRule rule [] = .ok i ∧ i.moduleName = "v1.2" ∧
      i.importedFile = Path.join (Path.join i.moduleDir "v1") "2.py" ∧
      i.importedFile ≠ rule.location := by
  intro t
  have hfile : IsName "v1.2.py" := by decide
  have extension : ∃ stem, stem ≠ "" ∧ "v1.2.py" = stem ++ ".py" := ⟨"v1.2", by decide, by decide⟩
  have wf : t.WellFormed := wellFormed_cacheOf (Source.isName_hash "./a") hfile
  obtain ⟨rule, listed⟩ := exists_listRules_cacheOf hfile extension "./a"
  obtain ⟨storage, v, found⟩ := exists_foundIn_of_listRules wf listed List.mem_cons_self
  obtain ⟨i, called, whole, -, imported⟩ := found.exists_module wf []
  rw [file_of_foundIn_cacheOf hfile extension "./a" found] at whole
  have name : i.moduleName = "v1.2" :=
    (String.append_left_inj ".py").1 (whole.trans (show "v1.2.py" = "v1.2" ++ ".py" by decide))
  refine ⟨rule, i, wf, listed, called, name, ?_, fun same => imported.2 same ?_⟩
  · rw [Invocation.importedFile, name]
    rfl
  · rw [name]
    decide

end Discovery

end HouseRules
