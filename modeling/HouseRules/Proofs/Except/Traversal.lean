import Mathlib.Data.List.Forall2

/-! Trying a fallible step on the items of a list, one after another up to the first failure. -/

namespace HouseRules

variable {ε ε' α β γ : Type} {f : α → Except ε β} {xs : List α} {ys : List β} {e : ε}

theorem mapM_cons_of_ok {x : α} {y : β} (h : f x = .ok y) (xs : List α) :
    (x :: xs).mapM f = (xs.mapM f).map (y :: ·) := by
  rw [List.mapM_cons, h]
  rcases xs.mapM f with e | ys <;> rfl

theorem mapM_cons_of_error {x : α} (h : f x = .error e) (xs : List α) :
    (x :: xs).mapM f = .error e := by
  rw [List.mapM_cons, h]
  rfl

/-- A change that each step makes to its result and its failure is made to all of them. -/
theorem mapM_congr {g : α → Except ε' γ} {change : γ → β} {blame : ε' → ε}
    (h : ∀ x ∈ xs, f x = ((g x).map change).mapError blame) :
    xs.mapM f = ((xs.mapM g).map (List.map change)).mapError blame := by
  induction xs with
  | nil => rfl
  | cons x xs ih =>
    have first := h x List.mem_cons_self
    have rest := ih fun y hy => h y (List.mem_cons_of_mem x hy)
    rcases hg : g x with e | y
    · rw [hg] at first
      rw [mapM_cons_of_error hg, mapM_cons_of_error first]
      rfl
    · rw [hg] at first
      rw [mapM_cons_of_ok hg, mapM_cons_of_ok first, rest]
      rcases xs.mapM g with e | ys <;> rfl

/-- All items pass if each one does, with its own result. -/
theorem mapM_eq_ok_iff : xs.mapM f = .ok ys ↔ List.Forall₂ (fun x y => f x = .ok y) xs ys := by
  induction xs generalizing ys with
  | nil =>
    rw [List.forall₂_nil_left_iff, List.mapM_nil]
    exact ⟨fun h => by cases h; rfl, fun h => h ▸ rfl⟩
  | cons x xs ih =>
    rw [List.forall₂_cons_left_iff]
    rcases h : f x with e | y
    · rw [mapM_cons_of_error h]
      simp
    · rw [mapM_cons_of_ok h]
      constructor
      · intro all
        rcases hs : xs.mapM f with e | zs
        · rw [hs] at all
          cases all
        · rw [hs] at all
          cases all
          exact ⟨y, zs, rfl, ih.1 hs, rfl⟩
      · rintro ⟨z, zs, hz, rest, rfl⟩
        cases hz
        rw [ih.2 rest]
        rfl

theorem exists_getElem?_of_mapM_eq_ok (h : xs.mapM f = .ok ys) {i : Nat} {x : α}
    (hx : xs[i]? = some x) : ∃ y, ys[i]? = some y ∧ f x = .ok y := by
  have each := mapM_eq_ok_iff.1 h
  clear h
  induction each generalizing i with
  | nil => cases hx
  | cons head tail ih =>
    cases i with
    | zero =>
      cases hx
      exact ⟨_, rfl, head⟩
    | succ i => exact ih hx

theorem exists_of_getElem?_of_mapM_eq_ok (h : xs.mapM f = .ok ys) {i : Nat} {y : β}
    (hy : ys[i]? = some y) : ∃ x, xs[i]? = some x ∧ f x = .ok y := by
  have length := (mapM_eq_ok_iff.1 h).length_eq
  have hi := (List.getElem?_eq_some_iff.1 hy).1
  obtain ⟨y', hy', hf⟩ := exists_getElem?_of_mapM_eq_ok h
    (List.getElem?_eq_getElem (length ▸ hi : i < xs.length))
  cases hy.symm.trans hy'
  exact ⟨_, List.getElem?_eq_getElem _, hf⟩

theorem exists_of_mem_of_mapM_eq_ok (h : xs.mapM f = .ok ys) {y : β} (hy : y ∈ ys) :
    ∃ x ∈ xs, f x = .ok y := by
  obtain ⟨i, hi⟩ := List.mem_iff_getElem?.1 hy
  obtain ⟨x, hx, hf⟩ := exists_of_getElem?_of_mapM_eq_ok h hi
  exact ⟨x, List.mem_iff_getElem?.2 ⟨i, hx⟩, hf⟩

/-- Trying ends at the first item that fails. -/
theorem mapM_eq_error_iff : xs.mapM f = .error e ↔
    ∃ (i : Nat) (x : α), xs[i]? = some x ∧ f x = .error e ∧
      ∀ j < i, ∀ y, xs[j]? = some y → ∃ z, f y = .ok z := by
  induction xs with
  | nil =>
    rw [List.mapM_nil]
    refine ⟨fun h => (by cases h), ?_⟩
    rintro ⟨i, x, stands, -⟩
    simp at stands
  | cons x xs ih =>
    rcases h : f x with e' | y
    · rw [mapM_cons_of_error h]
      constructor
      · intro same
        cases same
        exact ⟨0, x, rfl, h, fun j hj => absurd hj (Nat.not_lt_zero j)⟩
      · rintro ⟨i, x', stands, failed, passed⟩
        cases i with
        | zero =>
          cases stands
          cases h.symm.trans failed
          rfl
        | succ i =>
          obtain ⟨z, hz⟩ := passed 0 (Nat.succ_pos i) x rfl
          cases h.symm.trans hz
    · rw [mapM_cons_of_ok h]
      have rest : (xs.mapM f).map (y :: ·) = .error e ↔ xs.mapM f = .error e := by
        rcases xs.mapM f with e' | ys <;> simp [Except.map]
      rw [rest, ih]
      constructor
      · rintro ⟨i, x', stands, failed, passed⟩
        refine ⟨i + 1, x', stands, failed, fun j hj y' hy => ?_⟩
        cases j with
        | zero =>
          cases hy
          exact ⟨y, h⟩
        | succ j => exact passed j (Nat.lt_of_succ_lt_succ hj) y' hy
      · rintro ⟨i, x', stands, failed, passed⟩
        cases i with
        | zero =>
          cases stands
          cases h.symm.trans failed
        | succ i =>
          exact ⟨i, x', stands, failed, fun j hj => passed (j + 1) (Nat.succ_lt_succ hj)⟩

end HouseRules
