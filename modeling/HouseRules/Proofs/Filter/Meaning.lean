import HouseRules.Docstring
import HouseRules.Filter.Basic
import HouseRules.Proofs.Filter.Expression

/-! What the execution filter decides. A pattern matches an id when the id starts with the
pieces between the stars of the pattern, with stretches without line feeds between them. An id
is enabled unless a pattern of the first list matches it and none of the second does. The ids
that docstrings declare have no line feed, so for them the stretches are free. -/

namespace HouseRules

namespace Pattern

/-! ### Pieces and stretches -/

/-- The pieces in turn, with a stretch after each but the last. -/
def weave : List (List Char) → List (List Char) → List Char
  | piece :: pieces, stretch :: stretches => piece ++ stretch ++ weave pieces stretches
  | piece :: _, [] => piece
  | [], _ => []

/-- The id is made of the pieces between the stars, of stretches of allowed characters in place
of the stars, and of anything after that. -/
def MatchesBy (allowed : Char → Prop) (pattern id : String) : Prop :=
  ∃ (stretches : List (List Char)) (rest : List Char),
    stretches.length + 1 = (Text.pieces '*' pattern.toList).length ∧
    (∀ w ∈ stretches, ∀ c ∈ w, allowed c) ∧
    id.toList = weave (Text.pieces '*' pattern.toList) stretches ++ rest

/-- A star stands for any characters but line feeds. -/
abbrev Matches : String → String → Prop := MatchesBy (· ≠ '\n')

/-- A star stands for any characters at all. -/
abbrev MatchesFreely : String → String → Prop := MatchesBy fun _ => True

/-- A character before the first star extends the first piece. -/
theorem weave_cons_piece (c : Char) (piece : List Char) (pieces stretches : List (List Char)) :
    weave ((c :: piece) :: pieces) stretches = c :: weave (piece :: pieces) stretches := by
  cases stretches <;> simp [weave]

theorem matchesStart_iff_weave (p s : List Char) :
    matchesStart (p.map PatternItem.ofChar) s = true ↔
      ∃ (stretches : List (List Char)) (rest : List Char),
        stretches.length + 1 = (Text.pieces '*' p).length ∧
        (∀ w ∈ stretches, ∀ c ∈ w, c ≠ '\n') ∧
        s = weave (Text.pieces '*' p) stretches ++ rest := by
  induction p generalizing s with
  | nil =>
    simp only [List.map_nil, matchesStart_nil, true_iff]
    exact ⟨[], s, by simp [Text.pieces], by simp, by simp [Text.pieces, weave]⟩
  | cons c p ih =>
    obtain ⟨piece, pieces, hp⟩ := List.exists_cons_of_ne_nil (Text.pieces_ne_nil '*' p)
    rw [List.map_cons, PatternItem.ofChar, Text.pieces]
    rw [hp] at ih ⊢
    split
    · -- a star opens an empty piece and the stretch after it
      rw [matchesStart_star_iff]
      constructor
      · rintro ⟨w, t, rfl, hw, h⟩
        obtain ⟨ws, rest, hlen, hws, rfl⟩ := (ih t).1 h
        refine ⟨w :: ws, rest, by simpa using hlen, ?_, by simp [weave]⟩
        rw [List.forall_mem_cons]
        exact ⟨fun d hd he => hw (he ▸ hd), hws⟩
      · rintro ⟨stretches, rest, hlen, hws, rfl⟩
        cases stretches with
        | nil => simp at hlen
        | cons w ws =>
          rw [List.forall_mem_cons] at hws
          refine ⟨w, weave (piece :: pieces) ws ++ rest, by simp [weave], ?_, ?_⟩
          · exact fun hn => hws.1 _ hn rfl
          · exact (ih _).2 ⟨ws, rest, by simpa using hlen, hws.2, rfl⟩
    · rw [matchesStart_literal_iff]
      constructor
      · rintro ⟨t, rfl, h⟩
        obtain ⟨ws, rest, hlen, hws, rfl⟩ := (ih t).1 h
        exact ⟨ws, rest, by simpa using hlen, hws, by simp [weave_cons_piece]⟩
      · rintro ⟨ws, rest, hlen, hws, rfl⟩
        refine ⟨weave (piece :: pieces) ws ++ rest, by simp [weave_cons_piece], ?_⟩
        exact (ih _).2 ⟨ws, rest, by simpa using hlen, hws, rfl⟩

theorem isMatch_iff_matches (p id : String) :
    (ofString p).isMatch id.toList = true ↔ Matches p id := by
  rw [isMatch_eq]
  exact matchesStart_iff_weave p.toList id.toList

/-! ### Ids without line feeds -/

theorem mem_weave {pieces stretches : List (List Char)}
    (hlen : stretches.length + 1 = pieces.length) {w : List Char} (hw : w ∈ stretches) {c : Char}
    (hc : c ∈ w) : c ∈ weave pieces stretches := by
  induction stretches generalizing pieces with
  | nil => simp at hw
  | cons v stretches ih =>
    cases pieces with
    | nil => simp at hlen
    | cons piece pieces =>
      rw [weave, List.mem_append, List.mem_append]
      rcases List.mem_cons.1 hw with rfl | hw
      · exact .inl (.inr hc)
      · exact .inr (ih (by simpa using hlen) hw)

theorem matches_iff_matchesFreely {p id : String} (h : '\n' ∉ id.toList) :
    Matches p id ↔ MatchesFreely p id := by
  constructor
  · rintro ⟨ws, rest, hlen, -, hid⟩
    exact ⟨ws, rest, hlen, fun _ _ _ _ => trivial, hid⟩
  · rintro ⟨ws, rest, hlen, -, hid⟩
    refine ⟨ws, rest, hlen, fun w hw c hc hn => h ?_, hid⟩
    rw [hid, ← hn]
    exact List.mem_append_left _ (mem_weave hlen hw hc)

/-! ### Expressions -/

/-- The expression of the pattern is found in the id. -/
def FoundBy (pattern id : String) : Prop :=
  ∃ e, Expression.read? (ofString pattern).regex.toList = some e ∧ e.FoundIn id.toList

theorem foundBy_iff_matches (p id : String) : FoundBy p id ↔ Matches p id := by
  rw [← isMatch_iff_matches, isMatch_iff_foundIn, FoundBy, read?_regex]
  simp

end Pattern

namespace Filter

theorem compile_eq_ok {patterns : List String} {ps : List Pattern}
    (h : compile patterns = .ok ps) : ps = patterns.map Pattern.ofString := by
  unfold compile at h
  simp only at h
  split at h
  · exact absurd h (by simp)
  · split at h
    · exact absurd h (by simp)
    · exact (Except.ok.inj h).symm

theorem ofLists_eq_ok {exclude reinstate : List String} {f : Filter}
    (h : ofLists exclude reinstate = .ok f) :
    f = ⟨exclude.map Pattern.ofString, reinstate.map Pattern.ofString⟩ := by
  unfold ofLists at h
  cases he : compile exclude with
  | error e => rw [he] at h; exact absurd h (by simp [bind, Except.bind])
  | ok es =>
    cases hr : compile reinstate with
    | error e => rw [he, hr] at h; exact absurd h (by simp [bind, Except.bind])
    | ok rs =>
      rw [he, hr] at h
      rw [← compile_eq_ok he, ← compile_eq_ok hr]
      exact (Except.ok.inj h).symm

/-- A list of patterns matches an id when one of its patterns does. -/
theorem any_isMatch_iff (patterns : List String) (id : String) :
    (patterns.map Pattern.ofString).any (·.isMatch id.toList) = true ↔
      ∃ p ∈ patterns, Pattern.Matches p id := by
  simp [List.any_eq_true, Pattern.isMatch_iff_matches]

theorem isEnabled_iff {exclude reinstate : List String} {f : Filter}
    (h : ofLists exclude reinstate = .ok f) (id : String) :
    f.isEnabled id = true ↔
      (∀ p ∈ exclude, ¬Pattern.Matches p id) ∨ ∃ p ∈ reinstate, Pattern.Matches p id := by
  rw [ofLists_eq_ok h, isEnabled, Bool.or_eq_true, Bool.not_eq_true', any_isMatch_iff,
    ← Bool.not_eq_true, any_isMatch_iff]
  simp

/-- The filter enables an id exactly when no pattern of the first list matches it or one of the
second does, where matching is cutting the id at the pieces of the pattern and also finding the
expression of the pattern in the id. For the keys of docstrings a star is free. -/
theorem isEnabled_iff_matches {exclude reinstate : List String} {f : Filter}
    (h : ofLists exclude reinstate = .ok f) :
    (∀ id : String, f.isEnabled id = true ↔
      (∀ p ∈ exclude, ¬Pattern.Matches p id) ∨ ∃ p ∈ reinstate, Pattern.Matches p id) ∧
    (∀ id : String, f.isEnabled id = true ↔
      (∀ p ∈ exclude, ¬Pattern.FoundBy p id) ∨ ∃ p ∈ reinstate, Pattern.FoundBy p id) ∧
    ∀ (text : String) (doc : RuleDoc), RuleDoc.parse? text = some doc →
      (f.isEnabled doc.key = true ↔
        (∀ p ∈ exclude, ¬Pattern.MatchesFreely p doc.key) ∨
          ∃ p ∈ reinstate, Pattern.MatchesFreely p doc.key) := by
  refine ⟨isEnabled_iff h, fun id => ?_, fun text doc hdoc => ?_⟩
  · simp only [Pattern.foundBy_iff_matches]
    exact isEnabled_iff h id
  · have free (p : String) := Pattern.matches_iff_matchesFreely (p := p)
      (RuleDoc.lineFeed_not_mem_key hdoc)
    simp only [← free]
    exact isEnabled_iff h doc.key

/-- Between two stars an empty piece matches, and a reinstated id is enabled again. -/
theorem isEnabled_iff_matches_stars :
    let exclude := ["style.**s*"]
    let reinstate := ["*.imports"]
    let doc : RuleDoc := ⟨"style.imports", ""⟩
    ofLists exclude reinstate =
        .ok ⟨exclude.map Pattern.ofString, reinstate.map Pattern.ofString⟩ ∧
      RuleDoc.parse? " :key style.imports\n" = some doc ∧
      ((∀ p ∈ exclude, ¬Pattern.MatchesFreely p doc.key) ∨
        ∃ p ∈ reinstate, Pattern.MatchesFreely p doc.key) := by
  intro exclude reinstate doc
  have compiled : ofLists exclude reinstate =
      .ok ⟨exclude.map Pattern.ofString, reinstate.map Pattern.ofString⟩ := by rfl
  have parsed : RuleDoc.parse? " :key style.imports\n" = some doc := by decide +kernel
  exact ⟨compiled, parsed,
    ((isEnabled_iff_matches compiled).2.2 _ doc parsed).1 (by decide +kernel)⟩

end Filter

end HouseRules
