import HouseRules.Proofs.Discovery.Gathering

/-! What the filter has to do with discovery: nothing but the label of each rule. Under any
filter the same rules are found in the same order, or discovery fails alike. -/

namespace HouseRules

namespace Rule

/-- The rule with the label that a filter gives it. -/
def labelled (f : Filter) (r : Rule) : Rule := { r with excluded := !f.isEnabled r.id }

/-- One rule as two filters label it. -/
structure Labelled (f g : Filter) (a b : Rule) : Prop where
  id : a.id = b.id
  description : a.description = b.description
  ruleset : a.ruleset = b.ruleset
  location : a.location = b.location
  function : a.function = b.function
  parameters : a.parameters = b.parameters
  excluded_left : a.excluded = !f.isEnabled a.id
  excluded_right : b.excluded = !g.isEnabled b.id

theorem labelled_labelled (f g : Filter) (r : Rule) :
    Labelled f g (r.labelled f) (r.labelled g) :=
  ⟨rfl, rfl, rfl, rfl, rfl, rfl, rfl, rfl⟩

end Rule

namespace RuleFile

variable {location ruleset : String}

theorem rule_labelled (f g : Filter) (fn : Function) :
    rule ⟨location, ruleset, f.isEnabled⟩ fn =
      (rule ⟨location, ruleset, g.isEnabled⟩ fn).map (Rule.labelled f) := by
  rw [rule, rule]
  split
  · rfl
  · split <;> rfl

theorem rules_labelled (f g : Filter) (m : Python.Module) :
    rules ⟨location, ruleset, f.isEnabled⟩ m =
      (rules ⟨location, ruleset, g.isEnabled⟩ m).map (List.map (Rule.labelled f)) := by
  rw [rules, rules, mapM_congr (g := rule ⟨location, ruleset, g.isEnabled⟩) fun fn _ =>
    (rule_labelled f g fn).trans (Except.mapError_id _).symm]
  exact Except.mapError_id _

theorem parse_labelled (f g : Filter) (source : String) :
    parse ⟨location, ruleset, f.isEnabled⟩ source =
      (parse ⟨location, ruleset, g.isEnabled⟩ source).map (List.map (Rule.labelled f)) := by
  rw [parse_eq, parse_eq]
  split
  · rfl
  · exact rules_labelled f g _

end RuleFile

namespace Discovery

variable {t : FileTree}

theorem rulesInFile_labelled (f g : Filter) (ruleset path : String) :
    rulesInFile t f ruleset path =
      (rulesInFile t g ruleset path).map (List.map (Rule.labelled f)) := by
  rw [rulesInFile, rulesInFile]
  split
  · rfl
  · exact RuleFile.parse_labelled f g _

theorem rulesInRuleset_labelled (f g : Filter) (dir : String) :
    rulesInRuleset t f dir =
      (rulesInRuleset t g dir).map (List.map (Rule.labelled f)) := by
  rw [rulesInRuleset_eq, rulesInRuleset_eq]
  rcases entriesIn t dir with e | files
  · rfl
  · exact gather_map_congr fun path _ => rulesInFile_labelled f g _ path

theorem rulesInStorage_labelled (f g : Filter) (storage : String) :
    rulesInStorage t f storage =
      (rulesInStorage t g storage).map (List.map (Rule.labelled f)) := by
  rw [rulesInStorage_eq, rulesInStorage_eq]
  rcases entriesIn t storage with e | dirs
  · rfl
  · exact gather_map_congr fun dir _ => rulesInRuleset_labelled f g dir

theorem rulesOfSource_labelled (f g : Filter) (rulesDir source : String) :
    rulesOfSource t f rulesDir source =
      (rulesOfSource t g rulesDir source).map (List.map (Rule.labelled f)) := by
  rw [rulesOfSource, rulesOfSource]
  split
  · exact rulesInStorage_labelled f g _
  · rfl

/-- Under any filter the rules are those that are found without one, labelled. -/
theorem listRules_labelled {s : RuleSettings} {f : Filter}
    (h : Filter.ofLists s.exclude s.reinstate = .ok f) (t : FileTree) (rulesDir : String) :
    listRules t s rulesDir =
      (gather (rulesOfSource t .allowAll rulesDir) s.sources).map
        (List.map (Rule.labelled f)) := by
  rw [listRules_eq h]
  exact gather_map_congr fun source _ => rulesOfSource_labelled f .allowAll rulesDir source

section

variable {exclude reinstate exclude' reinstate' : List String} {f g : Filter}

/-- Under two filters discovery fails alike, or finds the same rules at the same positions, each
labelled by the filter. -/
theorem listRules_labels (hf : Filter.ofLists exclude reinstate = .ok f)
    (hg : Filter.ofLists exclude' reinstate' = .ok g) (t : FileTree) (sources : List String)
    (rulesDir : String) :
    (∃ e, listRules t ⟨sources, exclude, reinstate⟩ rulesDir = .error e ∧
      listRules t ⟨sources, exclude', reinstate'⟩ rulesDir = .error e) ∨
    ∃ rules rules', listRules t ⟨sources, exclude, reinstate⟩ rulesDir = .ok rules ∧
      listRules t ⟨sources, exclude', reinstate'⟩ rulesDir = .ok rules' ∧
      List.Forall₂ (Rule.Labelled f g) rules rules' := by
  rw [listRules_labelled (s := ⟨sources, exclude, reinstate⟩) hf,
    listRules_labelled (s := ⟨sources, exclude', reinstate'⟩) hg]
  rcases gather (rulesOfSource t .allowAll rulesDir) sources with e | rules
  · exact .inl ⟨e, rfl, rfl⟩
  · refine .inr ⟨_, _, rfl, rfl, ?_⟩
    rw [List.forall₂_map_left_iff, List.forall₂_map_right_iff]
    exact List.forall₂_same.2 fun r _ => r.labelled_labelled f g

/-- A filter that enables nothing, and one that enables some of what it excludes. -/
theorem listRules_labels_stars :
    let f : Filter := ⟨["*"].map Pattern.ofString, []⟩
    let g : Filter := ⟨["a.*"].map Pattern.ofString, ["*.b"].map Pattern.ofString⟩
    let t : FileTree := ⟨[], [(["rules"], .directory)]⟩
    Filter.ofLists ["*"] [] = .ok f ∧ Filter.ofLists ["a.*"] ["*.b"] = .ok g ∧
    ((∃ e, listRules t ⟨["./a"], ["*"], []⟩ "/rules" = .error e ∧
      listRules t ⟨["./a"], ["a.*"], ["*.b"]⟩ "/rules" = .error e) ∨
    ∃ rules rules', listRules t ⟨["./a"], ["*"], []⟩ "/rules" = .ok rules ∧
      listRules t ⟨["./a"], ["a.*"], ["*.b"]⟩ "/rules" = .ok rules' ∧
      List.Forall₂ (Rule.Labelled f g) rules rules') :=
  ⟨rfl, rfl, listRules_labels rfl rfl _ _ _⟩

end

end Discovery

end HouseRules
