import HouseRules.Proofs.Filter.Meaning

/-! Laws of patterns and of lists of patterns. A pattern matches whatever goes on after an id that
it matches, a longer pattern matches less, and stars next to each other or at the end make no
difference. The order and the repetitions of a list make none either; more patterns that exclude
enable less, and more that reinstate enable more. -/

namespace HouseRules

namespace Pattern

variable {p q r : Pattern} {s t : List Char}

/-! ### Patterns after one another -/

/-- What is matched by one pattern after another is what the first one accepts and, after that, what
the second one matches. -/
theorem matchesStart_append_iff (before : List Char) :
    matchesStart (p ++ q) s = true ↔
      ∃ w t, s = w ++ t ∧ p.body.Accepts before w ∧ matchesStart q t = true := by
  induction p generalizing before s with
  | nil =>
    simp only [List.nil_append, body, Expression.accepts_empty_iff]
    constructor
    · exact fun h => ⟨[], s, rfl, rfl, h⟩
    · rintro ⟨_, t, rfl, rfl, h⟩; exact h
  | cons i p ih =>
    rw [List.cons_append, body]
    simp only [Expression.accepts_seq_iff]
    cases i with
    | literal c =>
      rw [matchesStart_literal_iff]
      simp only [PatternItem.expression, Expression.accepts_char_iff]
      constructor
      · rintro ⟨s, rfl, h⟩
        obtain ⟨w, t, rfl, hw, ht⟩ := (ih (before ++ [c])).1 h
        exact ⟨c :: w, t, rfl, ⟨[c], w, rfl, rfl, hw⟩, ht⟩
      · rintro ⟨_, t, rfl, ⟨_, w, rfl, rfl, hw⟩, ht⟩
        exact ⟨w ++ t, rfl, (ih _).2 ⟨w, t, rfl, hw, ht⟩⟩
    | star =>
      rw [matchesStart_star_iff]
      simp only [PatternItem.expression, Expression.accepts_many_any_iff]
      constructor
      · rintro ⟨u, s, rfl, hu, h⟩
        obtain ⟨w, t, rfl, hw, ht⟩ := (ih (before ++ u)).1 h
        exact ⟨u ++ w, t, by simp, ⟨u, w, rfl, hu, hw⟩, ht⟩
      · rintro ⟨_, t, rfl, ⟨u, w, rfl, hu, hw⟩, ht⟩
        exact ⟨u, w ++ t, by simp, hu, (ih _).2 ⟨w, t, rfl, hw, ht⟩⟩

/-- More characters at the end of a text leave it matched. -/
theorem matchesStart_extended (h : matchesStart p s = true) (t : List Char) :
    matchesStart p (s ++ t) = true := by
  obtain ⟨w, rest, rfl, hw⟩ := (matchesStart_iff_accepts p [] s).1 h
  exact (matchesStart_iff_accepts p [] _).2 ⟨w, rest ++ t, List.append_assoc w rest t, hw⟩

/-- A text that a pattern matches is matched by every beginning of the pattern. -/
theorem matchesStart_of_append (h : matchesStart (p ++ q) s = true) :
    matchesStart p s = true := by
  obtain ⟨w, t, rfl, hw, -⟩ := (matchesStart_append_iff []).1 h
  exact (matchesStart_iff_accepts p [] _).2 ⟨w, t, rfl, hw⟩

/-- Patterns that match alike do so after any other pattern. -/
theorem matchesStart_append_congr (h : ∀ t, matchesStart q t = matchesStart r t) :
    matchesStart (p ++ q) s = matchesStart (p ++ r) s := by
  rw [Bool.eq_iff_iff, matchesStart_append_iff [], matchesStart_append_iff []]
  simp only [h]

/-! ### Stars -/

@[simp] theorem matchesStart_star (s : List Char) : matchesStart [.star] s = true :=
  matchesStart_star_iff.2 ⟨[], s, rfl, List.not_mem_nil, matchesStart_nil s⟩

/-- Two stretches without line feeds are one. -/
@[simp] theorem matchesStart_star_star (q : Pattern) (s : List Char) :
    matchesStart (.star :: .star :: q) s = matchesStart (.star :: q) s := by
  rw [Bool.eq_iff_iff, matchesStart_star_iff]
  simp only [matchesStart_star_iff]
  constructor
  · rintro ⟨v, _, rfl, hv, w, t, rfl, hw, ht⟩
    exact ⟨v ++ w, t, (List.append_assoc v w t).symm, by simp [hv, hw], ht⟩
  · rintro ⟨w, t, rfl, hw, ht⟩
    exact ⟨[], w ++ t, rfl, List.not_mem_nil, w, t, rfl, hw, ht⟩

theorem ofString_append (a b : String) : ofString (a ++ b) = ofString a ++ ofString b := by
  simp [ofString]

theorem stars_append (p q : Pattern) : stars (p ++ q) = stars p + stars q := List.countP_append

end Pattern

namespace Filter

variable {exclude exclude' reinstate reinstate' : List String} {f g : Filter} {id : String}

/-! ### What compiles -/

/-- A list compiles when its patterns are small enough, each on its own and all together. -/
theorem compile_eq_ok_iff {patterns : List String} {ps : List Pattern} :
    compile patterns = .ok ps ↔
      (∀ p ∈ patterns, (Pattern.ofString p).stars < patternLimit) ∧
        Pattern.stars (patterns.map Pattern.ofString).flatten < listLimit ∧
        ps = patterns.map Pattern.ofString := by
  constructor
  · intro h
    have compiled := compile_eq_ok h
    unfold compile at h
    simp only at h
    split at h
    · cases h
    · rename_i small
      split at h
      · cases h
      · rename_i together
        refine ⟨fun p hp => ?_, Nat.lt_of_not_le together, compiled⟩
        simpa using List.find?_eq_none.1 small p hp
  · rintro ⟨small, together, rfl⟩
    have none : patterns.find? (fun p => patternLimit ≤ (Pattern.ofString p).stars) = none :=
      List.find?_eq_none.2 fun p hp => by simpa using small p hp
    simp only [compile, none, if_neg (Nat.not_le.2 together)]

theorem compile_singleton_iff {p : String} {ps : List Pattern} :
    compile [p] = .ok ps ↔
      (Pattern.ofString p).stars < patternLimit ∧ ps = [Pattern.ofString p] := by
  have smaller : patternLimit ≤ listLimit := by decide
  rw [compile_eq_ok_iff]
  simp only [List.forall_mem_singleton, List.map_cons, List.map_nil, List.flatten_cons,
    List.flatten_nil, List.append_nil]
  exact and_congr_right fun small => and_iff_right (Nat.lt_of_lt_of_le small smaller)

/-- The order of a list has no part in whether it compiles. -/
theorem compile_of_perm {patterns patterns' : List String} (perm : patterns.Perm patterns')
    {ps : List Pattern} (h : compile patterns = .ok ps) :
    compile patterns' = .ok (patterns'.map Pattern.ofString) := by
  obtain ⟨small, together, -⟩ := compile_eq_ok_iff.1 h
  have sum : Pattern.stars (patterns'.map Pattern.ofString).flatten =
      Pattern.stars (patterns.map Pattern.ofString).flatten :=
    ((perm.map _).flatten.countP_eq _).symm
  exact compile_eq_ok_iff.2 ⟨fun p hp => small p (perm.mem_iff.2 hp), sum ▸ together, rfl⟩

theorem ofLists_of_compile {ps qs : List Pattern} (hp : compile exclude = .ok ps)
    (hq : compile reinstate = .ok qs) : ofLists exclude reinstate = .ok ⟨ps, qs⟩ := by
  rw [ofLists, hp, hq]
  rfl

theorem exists_compile_of_ofLists (h : ofLists exclude reinstate = .ok f) :
    ∃ ps qs, compile exclude = .ok ps ∧ compile reinstate = .ok qs := by
  rw [ofLists] at h
  rcases hp : compile exclude with e | ps
  · rw [hp] at h
    cases h
  · rcases hq : compile reinstate with e | qs
    · rw [hp, hq] at h
      cases h
    · exact ⟨ps, qs, rfl, rfl⟩

theorem exists_ofLists_of_perm (hex : exclude.Perm exclude') (hre : reinstate.Perm reinstate')
    (h : ofLists exclude reinstate = .ok f) : ∃ g, ofLists exclude' reinstate' = .ok g := by
  obtain ⟨ps, qs, hp, hq⟩ := exists_compile_of_ofLists h
  exact ⟨_, ofLists_of_compile (compile_of_perm hex hp) (compile_of_perm hre hq)⟩

/-! ### One pattern -/

/-- Whether the filter that only excludes, and that by one pattern, does exclude the id. -/
def excludes? (p id : String) : Except DiscoveryError Bool :=
  (ofLists [p] []).map fun f => !f.isEnabled id

theorem excludes?_eq_ok_iff {p : String} {b : Bool} :
    excludes? p id = .ok b ↔ (Pattern.ofString p).stars < patternLimit ∧
      Pattern.matchesStart (Pattern.ofString p) id.toList = b := by
  by_cases small : (Pattern.ofString p).stars < patternLimit
  · have compiled := ofLists_of_compile (compile_singleton_iff.2 ⟨small, rfl⟩)
      (show compile [] = .ok [] from rfl)
    rw [excludes?, compiled]
    simp [Except.map, isEnabled, Pattern.isMatch_eq, small]
  · constructor
    · intro h
      rw [excludes?] at h
      rcases compiled : ofLists [p] [] with e | f
      · rw [compiled] at h
        cases h
      · obtain ⟨ps, -, hp, -⟩ := exists_compile_of_ofLists compiled
        exact absurd (compile_singleton_iff.1 hp).1 small
    · exact fun h => absurd h.1 small

/-- A pattern that matches alike and has no more stars decides alike. -/
theorem excludes?_of_le {p q : String} {b : Bool} (h : excludes? p id = .ok b)
    (stars : (Pattern.ofString q).stars ≤ (Pattern.ofString p).stars)
    (same : ∀ s, Pattern.matchesStart (Pattern.ofString q) s =
      Pattern.matchesStart (Pattern.ofString p) s) : excludes? q id = .ok b := by
  obtain ⟨small, rfl⟩ := excludes?_eq_ok_iff.1 h
  exact excludes?_eq_ok_iff.2 ⟨Nat.lt_of_le_of_lt stars small, same _⟩

/-! ### Lists of patterns -/

/-- Fewer patterns that exclude and more that reinstate enable more. -/
theorem isEnabled_mono (hf : ofLists exclude reinstate = .ok f)
    (hg : ofLists exclude' reinstate' = .ok g) (hex : exclude' ⊆ exclude)
    (hre : reinstate ⊆ reinstate') (h : f.isEnabled id = true) : g.isEnabled id = true := by
  rw [isEnabled_iff hf] at h
  rw [isEnabled_iff hg]
  obtain h | ⟨p, hp, h⟩ := h
  · exact .inl fun p hp => h p (hex hp)
  · exact .inr ⟨p, hre hp, h⟩

/-- Lists with the same patterns decide alike. -/
theorem isEnabled_congr (hf : ofLists exclude reinstate = .ok f)
    (hg : ofLists exclude' reinstate' = .ok g) (hex : ∀ p, p ∈ exclude ↔ p ∈ exclude')
    (hre : ∀ p, p ∈ reinstate ↔ p ∈ reinstate') (id : String) :
    f.isEnabled id = g.isEnabled id := by
  rw [Bool.eq_iff_iff]
  exact ⟨isEnabled_mono hf hg (fun p => (hex p).2) fun p => (hre p).1,
    isEnabled_mono hg hf (fun p => (hex p).1) fun p => (hre p).2⟩

/-- What patterns match when they or the id go on, and what lists of patterns decide when they are
rearranged or go on. A single pattern compiles whenever a longer one does, and so does a list in any
order. -/
theorem isEnabled_algebra :
    (∀ p id t, excludes? p id = .ok true → excludes? p (id ++ t) = .ok true) ∧
    (∀ p q id, excludes? (p ++ q) id = .ok true → excludes? p id = .ok true) ∧
    (∀ p id b, excludes? (p ++ "*") id = .ok b → excludes? p id = .ok b) ∧
    (∀ p q id b, excludes? (p ++ "**" ++ q) id = .ok b → excludes? (p ++ "*" ++ q) id = .ok b) ∧
    (∀ exclude exclude' reinstate reinstate' f, exclude.Perm exclude' →
      reinstate.Perm reinstate' → ofLists exclude reinstate = .ok f →
      ∃ g, ofLists exclude' reinstate' = .ok g ∧ ∀ id, g.isEnabled id = f.isEnabled id) ∧
    ∀ exclude exclude' reinstate reinstate' f g, ofLists exclude reinstate = .ok f →
      ofLists exclude' reinstate' = .ok g → ∀ id,
      ((∀ p, p ∈ exclude ↔ p ∈ exclude') → (∀ p, p ∈ reinstate ↔ p ∈ reinstate') →
        g.isEnabled id = f.isEnabled id) ∧
      (exclude = exclude' → reinstate ⊆ reinstate' →
        f.isEnabled id = true → g.isEnabled id = true) ∧
      (exclude ⊆ exclude' → reinstate = reinstate' →
        f.isEnabled id = false → g.isEnabled id = false) := by
  refine ⟨fun p id t h => ?_, fun p q id h => ?_, fun p id b h => ?_, fun p q id b h => ?_,
    fun exclude exclude' reinstate reinstate' f hex hre hf => ?_,
    fun exclude exclude' reinstate reinstate' f g hf hg id => ⟨fun hex hre => ?_, ?_, ?_⟩⟩
  · obtain ⟨small, matched⟩ := excludes?_eq_ok_iff.1 h
    rw [excludes?_eq_ok_iff, String.toList_append]
    exact ⟨small, Pattern.matchesStart_extended matched t.toList⟩
  · obtain ⟨small, matched⟩ := excludes?_eq_ok_iff.1 h
    rw [Pattern.ofString_append] at small matched
    rw [Pattern.stars_append] at small
    exact excludes?_eq_ok_iff.2
      ⟨Nat.lt_of_le_of_lt (Nat.le_add_right _ _) small, Pattern.matchesStart_of_append matched⟩
  · have star : Pattern.ofString (p ++ "*") = Pattern.ofString p ++ [.star] :=
      Pattern.ofString_append p "*"
    refine excludes?_of_le h (by simp [star, Pattern.stars_append]) fun s => ?_
    -- the pattern itself is the pattern with nothing after it
    rw [star, ← Pattern.matchesStart_append_congr (q := []) (by simp), List.append_nil]
  · have one : Pattern.ofString (p ++ "*" ++ q) =
        Pattern.ofString p ++ .star :: Pattern.ofString q := by
      rw [Pattern.ofString_append, Pattern.ofString_append, List.append_assoc]
      rfl
    have two : Pattern.ofString (p ++ "**" ++ q) =
        Pattern.ofString p ++ .star :: .star :: Pattern.ofString q := by
      rw [Pattern.ofString_append, Pattern.ofString_append, List.append_assoc]
      rfl
    refine excludes?_of_le h ?_ fun s => ?_
    · rw [one, two, Pattern.stars_append, Pattern.stars_append]
      simp [Pattern.stars]
    · rw [one, two]
      exact Pattern.matchesStart_append_congr fun t => (Pattern.matchesStart_star_star _ t).symm
  · obtain ⟨g, hg⟩ := exists_ofLists_of_perm hex hre hf
    exact ⟨g, hg, isEnabled_congr hg hf (fun _ => hex.mem_iff.symm) fun _ => hre.mem_iff.symm⟩
  · exact (isEnabled_congr hf hg hex hre id).symm
  · rintro rfl hre
    exact isEnabled_mono hf hg (List.Subset.refl _) hre
  · rintro hex rfl disabled
    rw [← Bool.not_eq_true] at disabled ⊢
    exact mt (isEnabled_mono hg hf hex (List.Subset.refl _)) disabled

/-- At the seam of two patterns that end and start with a star. -/
theorem isEnabled_algebra_seam :
    excludes? "a***b" "a-b" = .ok true ∧ excludes? "a**b" "a-b" = .ok true ∧
      excludes? "a**b" "a-b.c" = .ok true ∧ excludes? "a**" "a-b.c" = .ok true ∧
      excludes? "a*" "a-b.c" = .ok true := by
  obtain ⟨longer, shorter, last, double, -, -⟩ := isEnabled_algebra
  have seam : excludes? "a***b" "a-b" = .ok true := by rfl
  have merged : excludes? "a**b" "a-b" = .ok true := double "a" "*b" "a-b" true seam
  have extended : excludes? "a**b" "a-b.c" = .ok true := longer "a**b" "a-b" ".c" merged
  have cut : excludes? "a**" "a-b.c" = .ok true := shorter "a**" "b" "a-b.c" extended
  exact ⟨seam, merged, extended, cut, last "a*" "a-b.c" true cut⟩

end Filter

end HouseRules
