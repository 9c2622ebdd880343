import HouseRules.Proofs.Filter.Expression
import HouseRules.Text.Pieces

/-! The translation of patterns to regular expressions loses nothing. A translated pattern has one
reading in the syntax of expressions: after the start of the text come its characters in order, a
stretch for each star and every other character, also one with a meaning in that syntax, as itself.
So the pattern can be recovered, and the texts that it can be recovered from are exactly the
translations. -/

namespace HouseRules

/-- A character that is no star is escaped or stands as it is. -/
theorem PatternItem.regex_ofChar {c : Char} (h : c ≠ '*') :
    (ofChar c).regex = if c ∈ metacharacters then ['\\', c] else [c] := by
  rw [ofChar, if_neg h, regex]

namespace Expression

/-! ### The syntax of expressions -/

/-- What a text may denote: a metacharacter is escaped, any other character stands for itself, a
dot for any character and, with a star after it, for a stretch of those, and `^` for the start. -/
inductive Denotes : List Char → Expression → Prop where
  | empty : Denotes [] .empty
  | escaped {c : Char} {s : List Char} {e : Expression} (h : c ∈ PatternItem.metacharacters)
      (rest : Denotes s e) : Denotes ('\\' :: c :: s) (.seq (.char c) e)
  | ordinary {c : Char} {s : List Char} {e : Expression} (h : c ∉ PatternItem.metacharacters)
      (rest : Denotes s e) : Denotes (c :: s) (.seq (.char c) e)
  | any {s : List Char} {e : Expression} (rest : Denotes s e) : Denotes ('.' :: s) (.seq .any e)
  | stretch {s : List Char} {e : Expression} (rest : Denotes s e) :
      Denotes ('.' :: '*' :: s) (.seq (.many .any) e)
  | start {s : List Char} {e : Expression} (rest : Denotes s e) :
      Denotes ('^' :: s) (.seq .start e)

theorem Denotes.head?_ne_star {s : List Char} {e : Expression} (h : Denotes s e) :
    s.head? ≠ some '*' := by
  cases h with
  | ordinary other rest =>
    rintro star
    cases star
    exact other (by decide)
  | _ => simp

theorem Denotes.exists_of_start {s : List Char} {e : Expression} (h : Denotes s (.seq .start e)) :
    ∃ t, s = '^' :: t ∧ Denotes t e := by
  cases h with
  | start rest => exact ⟨_, rfl, rest⟩

/-- Reading finds what a text denotes, so a text denotes one expression at most. -/
theorem read?_eq_some_iff {s : List Char} {e : Expression} : read? s = some e ↔ Denotes s e := by
  constructor
  · intro h
    fun_induction read? s generalizing e with
    | case1 => cases h; exact .empty
    | case2 c s special ih =>
      obtain ⟨f, hf, rfl⟩ := Option.map_eq_some_iff.1 h
      exact .escaped special (ih hf)
    | case3 => cases h
    | case4 s ih =>
      obtain ⟨f, hf, rfl⟩ := Option.map_eq_some_iff.1 h
      exact .stretch (ih hf)
    | case5 s _ ih =>
      obtain ⟨f, hf, rfl⟩ := Option.map_eq_some_iff.1 h
      exact .any (ih hf)
    | case6 s ih =>
      obtain ⟨f, hf, rfl⟩ := Option.map_eq_some_iff.1 h
      exact .start (ih hf)
    | case7 => cases h
    | case8 c s _ _ _ _ other ih =>
      obtain ⟨f, hf, rfl⟩ := Option.map_eq_some_iff.1 h
      exact .ordinary other (ih hf)
  · intro h
    induction h with
    | empty => rfl
    | escaped special rest ih => rw [read?, if_pos special, ih]; rfl
    | ordinary plain rest ih => rw [read?_plain plain, ih]; rfl
    | any rest ih =>
      rw [read?, ih]
      · rfl
      · -- the dot is not one of a stretch
        rintro s rfl
        exact rest.head?_ne_star rfl
    | stretch rest ih => rw [read?, ih]; rfl
    | start rest ih => rw [read?, ih]; rfl

/-! ### The pattern of an expression -/

/-- Expressions one after the other. -/
def sequence (es : List Expression) : Expression := es.foldr .seq .empty

/-- The pattern that a sequence of characters and stretches spells. A star that is a character has
no pattern. -/
def source? : Expression → Option (List Char)
  | .empty => some []
  | .seq (.char c) e => if c = '*' then none else (source? e).map (c :: ·)
  | .seq (.many .any) e => (source? e).map ('*' :: ·)
  | _ => none

theorem exists_of_source?_char {c : Char} {e : Expression} {cs : List Char}
    (h : source? (.seq (.char c) e) = some cs) :
    ∃ ds, c ≠ '*' ∧ source? e = some ds ∧ cs = c :: ds := by
  rw [source?] at h
  split at h
  · cases h
  · rename_i other
    obtain ⟨ds, hds, rfl⟩ := Option.map_eq_some_iff.1 h
    exact ⟨ds, other, hds, rfl⟩

/-- A text that has a pattern is written character by character. -/
theorem Denotes.eq_flatMap_of_source? {s cs : List Char} {e : Expression} (h : Denotes s e)
    (spelled : e.source? = some cs) : s = cs.flatMap fun c => (PatternItem.ofChar c).regex := by
  induction h generalizing cs with
  | empty => cases spelled; rfl
  | escaped special rest ih =>
    obtain ⟨ds, other, hds, rfl⟩ := exists_of_source?_char spelled
    rw [List.flatMap_cons, ← ih hds, PatternItem.regex_ofChar other, if_pos special]
    rfl
  | ordinary plain rest ih =>
    obtain ⟨ds, other, hds, rfl⟩ := exists_of_source?_char spelled
    rw [List.flatMap_cons, ← ih hds, PatternItem.regex_ofChar other, if_neg plain]
    rfl
  | stretch rest ih =>
    obtain ⟨ds, hds, rfl⟩ := Option.map_eq_some_iff.1 spelled
    rw [List.flatMap_cons, ← ih hds]
    rfl
  | any | start => cases spelled

end Expression

namespace Pattern

/-- A text in which the characters with a meaning in regular expressions are escaped. -/
def escape (s : String) : String :=
  String.ofList (s.toList.flatMap fun c => (PatternItem.literal c).regex)

/-- The pattern that a regular expression is the translation of. -/
def ofRegex? (text : String) : Option String :=
  match Expression.read? text.toList with
  | some (.seq .start e) => e.source?.map String.ofList
  | _ => none

theorem toList_regex (p : String) :
    (ofString p).regex.toList = '^' :: p.toList.flatMap fun c => (PatternItem.ofChar c).regex := by
  rw [regex, String.toList_ofList, ofString, List.flatMap_map]

/-- The pieces between the stars are escaped, and a stretch stands between each two of them. -/
theorem regex_eq_joinWith (p : String) :
    (ofString p).regex = "^" ++ Text.joinWith ".*" ((Text.splitAt '*' p).map escape) := by
  have pieces (cs : List Char) :
      (Text.joinWith ".*" ((Text.pieces '*' cs).map fun s => escape (String.ofList s))).toList =
        cs.flatMap fun c => (PatternItem.ofChar c).regex := by
    induction cs with
    | nil => rfl
    | cons c cs ih =>
      obtain ⟨s, rest, hs⟩ := List.exists_cons_of_ne_nil (Text.pieces_ne_nil '*' cs)
      rw [Text.pieces, List.flatMap_cons, ← ih, hs, PatternItem.ofChar]
      split
      · -- a star opens an empty piece, and a character extends the first one
        rw [List.map_cons, List.map_cons, Text.joinWith_cons_cons, String.toList_append]
        rfl
      · have first : escape (String.ofList (c :: s)) =
            String.ofList (PatternItem.literal c).regex ++ escape (String.ofList s) := by
          simp [escape]
        rw [List.map_cons, List.map_cons, first, Text.joinWith_append_cons, String.toList_append,
          String.toList_ofList]
  rw [← String.toList_inj, toList_regex, String.toList_append, Text.splitAt, List.map_map, ← pieces]
  rfl

/-- The expression of a pattern has an item for each of its characters. -/
theorem body_ofString (p : String) :
    (ofString p).body =
      Expression.sequence (p.toList.map fun c => if c = '*' then .many .any else .char c) := by
  rw [ofString]
  induction p.toList with
  | nil => rfl
  | cons c cs ih =>
    rw [List.map_cons, List.map_cons, body, ih, PatternItem.ofChar]
    split <;> rfl

theorem source?_body (p : String) : (ofString p).body.source? = some p.toList := by
  rw [ofString]
  induction p.toList with
  | nil => rfl
  | cons c cs ih =>
    rw [List.map_cons, body, PatternItem.ofChar]
    split
    · rename_i star
      rw [PatternItem.expression, Expression.source?, ih, star]
      rfl
    · rename_i other
      rw [PatternItem.expression, Expression.source?, if_neg other, ih]
      rfl

/-- A pattern is recovered from its translation and from no other text. -/
theorem ofRegex?_eq_some_iff {text p : String} :
    ofRegex? text = some p ↔ (ofString p).regex = text := by
  constructor
  · intro h
    rw [ofRegex?] at h
    split at h
    · rename_i e read
      obtain ⟨cs, spelled, rfl⟩ := Option.map_eq_some_iff.1 h
      obtain ⟨s, hs, denotes⟩ := (Expression.read?_eq_some_iff.1 read).exists_of_start
      rw [← String.toList_inj, toList_regex, String.toList_ofList,
        ← denotes.eq_flatMap_of_source? spelled, hs]
    · cases h
  · rintro rfl
    simp only [ofRegex?, read?_regex, expression, source?_body, Option.map_some,
      String.ofList_toList]

/-- The translation of a pattern consists of its escaped pieces, denotes the start of the text and
then its characters in order and nothing else, and is the translation of no other pattern. -/
theorem regex_reads_back :
    (∀ p : String,
      (ofString p).regex = "^" ++ Text.joinWith ".*" ((Text.splitAt '*' p).map escape)) ∧
    (∀ (p : String) (e : Expression), Expression.Denotes (ofString p).regex.toList e ↔
      e = .sequence (.start :: p.toList.map fun c => if c = '*' then .many .any else .char c)) ∧
    (∀ text p : String, ofRegex? text = some p ↔ (ofString p).regex = text) ∧
    Function.Injective fun p : String => (ofString p).regex := by
  refine ⟨regex_eq_joinWith, fun p e => ?_, fun text p => ofRegex?_eq_some_iff, fun p q same => ?_⟩
  · rw [← Expression.read?_eq_some_iff, read?_regex, expression, body_ofString, Option.some_inj,
      eq_comm]
    rfl
  · have recovered : ofRegex? (ofString p).regex = some p := ofRegex?_eq_some_iff.2 rfl
    exact Option.some_inj.1 (recovered.symm.trans (ofRegex?_eq_some_iff.2 same.symm))

/-- Metacharacters next to stars, and stars that are not between pieces. -/
example : (ofString "a.*\\.**").regex = "^a\\..*\\\\\\..*.*" ∧
    ofRegex? "^a\\..*\\\\\\..*.*" = some "a.*\\.**" ∧ ofRegex? "^a\\*" = none := by
  decide +kernel

end Pattern

end HouseRules
