import HouseRules.Discovery.Basic
import HouseRules.Proofs.Except.Traversal

/-! Gathering the lists that a fallible step gives for the items of a list, one after another up to
the first failure. Discovery gathers in three layers: over the sources, the rulesets in the storage
of each and the files in each ruleset. -/

namespace HouseRules

variable {ε ε' α β γ : Type}

/-- The lists that a step gives for each item, joined, or its first failure. -/
def gather (f : α → Except ε (List β)) (xs : List α) : Except ε (List β) :=
  (xs.mapM f).map List.flatten

@[simp] theorem gather_nil (f : α → Except ε (List β)) : gather f [] = .ok [] := rfl

theorem gather_cons (f : α → Except ε (List β)) (x : α) (xs : List α) :
    gather f (x :: xs) = (f x).bind fun ys => (gather f xs).map (ys ++ ·) := by
  rw [gather, List.mapM_cons]
  cases f x with
  | error e => rfl
  | ok ys =>
    rw [gather]
    rcases xs.mapM f with e | lists <;> rfl

theorem gather_cons_of_ok {f : α → Except ε (List β)} {x : α} {ys : List β} (h : f x = .ok ys)
    (xs : List α) : gather f (x :: xs) = (gather f xs).map (ys ++ ·) := by
  rw [gather_cons, h]
  rfl

theorem gather_cons_of_error {f : α → Except ε (List β)} {x : α} {e : ε} (h : f x = .error e)
    (xs : List α) : gather f (x :: xs) = .error e := by
  rw [gather_cons, h]
  rfl

theorem gather_singleton_of_ok {f : α → Except ε (List β)} {x : α} {ys : List β}
    (h : f x = .ok ys) : gather f [x] = .ok ys := by
  rw [gather_cons_of_ok h, gather_nil]
  exact congrArg Except.ok (List.append_nil ys)

theorem gather_append (f : α → Except ε (List β)) (xs zs : List α) :
    gather f (xs ++ zs) = (gather f xs).bind fun ys => (gather f zs).map (ys ++ ·) := by
  induction xs with
  | nil =>
    rw [List.nil_append, gather_nil]
    rcases gather f zs with e | ys <;> rfl
  | cons x xs ih =>
    rw [List.cons_append]
    rcases h : f x with e | ys
    · rw [gather_cons_of_error h, gather_cons_of_error h]
      rfl
    · rw [gather_cons_of_ok h, gather_cons_of_ok h, ih]
      rcases gather f xs with e | ys'
      · rfl
      · rcases gather f zs with e | zs'
        · rfl
        · simp [Except.bind, Except.map]

theorem gather_map (f : β → Except ε (List γ)) (g : α → β) (xs : List α) :
    gather f (xs.map g) = gather (fun x => f (g x)) xs := by
  induction xs with
  | nil => rfl
  | cons x xs ih => rw [List.map_cons, gather_cons, gather_cons, ih]

/-- Gathering in two layers is gathering in one. -/
theorem gather_flatMap (f : β → Except ε (List γ)) (g : α → List β) (xs : List α) :
    gather f (xs.flatMap g) = gather (fun x => gather f (g x)) xs := by
  induction xs with
  | nil => rfl
  | cons x xs ih => rw [List.flatMap_cons, gather_append, gather_cons, ih]

theorem gather_congr_of_eq {f g : α → Except ε (List β)} {xs : List α} (h : ∀ x ∈ xs, f x = g x) :
    gather f xs = gather g xs := by
  induction xs with
  | nil => rfl
  | cons x xs ih =>
    rw [gather_cons, gather_cons, h x List.mem_cons_self,
      ih fun y hy => h y (List.mem_cons_of_mem x hy)]

/-- Items that are left out give nothing. -/
theorem gather_filter (f : α → Except ε (List β)) (keep : α → Bool) (xs : List α) :
    gather f (xs.filter keep) = gather (fun x => if keep x then f x else .ok []) xs := by
  induction xs with
  | nil => rfl
  | cons x xs ih =>
    rw [List.filter_cons, gather_cons]
    split
    · rw [gather_cons, ih]
    · rw [ih, Except.bind]
      rcases gather (fun x => if keep x then f x else .ok []) xs with e | ys <;> rfl

theorem Except.mapError_id (x : Except ε α) : x.mapError id = x := by
  cases x <;> rfl

/-- A change that each step makes to its items and its failure is made to all of them. -/
theorem gather_congr {f : α → Except ε' (List γ)} {g : α → Except ε (List β)} {change : β → γ}
    {blame : ε → ε'} {xs : List α}
    (h : ∀ x ∈ xs, f x = ((g x).map (List.map change)).mapError blame) :
    gather f xs = ((gather g xs).map (List.map change)).mapError blame := by
  rw [gather, gather, mapM_congr h]
  rcases xs.mapM g with e | lists
  · rfl
  · simp [Except.map, Except.mapError]

theorem gather_map_congr {f : α → Except ε (List γ)} {g : α → Except ε (List β)} {change : β → γ}
    {xs : List α} (h : ∀ x ∈ xs, f x = (g x).map (List.map change)) :
    gather f xs = (gather g xs).map (List.map change) := by
  have same : ∀ x ∈ xs, f x = ((g x).map (List.map change)).mapError id := fun x hx =>
    (h x hx).trans (Except.mapError_id _).symm
  rw [gather_congr same]
  exact Except.mapError_id _

/-- Gathering ends at the first failure, or there is none and every list is there. -/
theorem gather_cases (f : α → Except ε (List β)) (xs : List α) :
    (∃ lists, List.Forall₂ (fun x ys => f x = .ok ys) xs lists ∧
      gather f xs = .ok lists.flatten) ∨
    ∃ before x after e, xs = before ++ x :: after ∧ (∀ y ∈ before, ∃ ys, f y = .ok ys) ∧
      f x = .error e ∧ gather f xs = .error e := by
  induction xs with
  | nil => exact .inl ⟨[], .nil, rfl⟩
  | cons x xs ih =>
    rcases h : f x with e | ys
    · exact .inr ⟨[], x, xs, e, rfl, fun _ hy => absurd hy List.not_mem_nil, h,
        gather_cons_of_error h xs⟩
    · obtain ⟨lists, each, all⟩ | ⟨before, y, after, e, rfl, passed, failed, all⟩ := ih
      · refine .inl ⟨ys :: lists, .cons h each, ?_⟩
        rw [gather_cons_of_ok h, all]
        rfl
      · refine .inr ⟨x :: before, y, after, e, rfl, ?_, failed, ?_⟩
        · exact List.forall_mem_cons.2 ⟨⟨ys, h⟩, passed⟩
        · rw [gather_cons_of_ok h, all]
          rfl

/-- What is gathered is in the list of some item. -/
theorem exists_of_mem_gather {f : α → Except ε (List β)} {xs : List α} {ys : List β} {y : β}
    (h : gather f xs = .ok ys) (hy : y ∈ ys) : ∃ x ∈ xs, ∃ zs, f x = .ok zs ∧ y ∈ zs := by
  rw [gather] at h
  rcases hlists : xs.mapM f with e | lists
  · rw [hlists] at h
    cases h
  · obtain rfl : lists.flatten = ys := Except.ok.inj (by rw [hlists] at h; exact h)
    obtain ⟨zs, hzs, hy⟩ := List.mem_flatten.1 hy
    obtain ⟨x, hx, hfx⟩ := exists_of_mem_of_mapM_eq_ok hlists hzs
    exact ⟨x, hx, zs, hfx, hy⟩

/-! ### Layers of discovery -/

-- by `delta`: the equation that Lean makes for the definition is slow to check
theorem RuleFile.parse_eq (o : RuleFile.Origin) (source : String) :
    RuleFile.parse o source = match Python.Module.read source.toList with
      | .error place => .error (.malformed o.location place)
      | .ok m => RuleFile.rules o m := by
  delta RuleFile.parse
  exact Eq.refl _

namespace Discovery

theorem rulesInRuleset_eq (t : FileTree) (f : Filter) (dir : String) :
    rulesInRuleset t f dir = (entriesIn t dir).bind fun files =>
      gather (rulesInFile t f (rulesetName ((Path.fileName? dir).getD "")))
        (files.filter (isRuleFile t)) := by
  rw [rulesInRuleset]
  rcases entriesIn t dir with e | files <;> rfl

theorem rulesInStorage_eq (t : FileTree) (f : Filter) (storage : String) :
    rulesInStorage t f storage = (entriesIn t storage).bind fun dirs =>
      gather (rulesInRuleset t f) (dirs.filter t.isDirectory) := by
  rw [rulesInStorage]
  rcases entriesIn t storage with e | dirs <;> rfl

theorem listRules_eq {s : RuleSettings} {f : Filter}
    (compiled : Filter.ofLists s.exclude s.reinstate = .ok f) (t : FileTree) (rulesDir : String) :
    listRules t s rulesDir = gather (rulesOfSource t f rulesDir) s.sources := by
  rw [listRules, compiled]
  rfl

end Discovery

end HouseRules
