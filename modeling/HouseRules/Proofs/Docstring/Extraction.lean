import HouseRules.Docstring
import HouseRules.Proofs.Path.Components
import HouseRules.Proofs.Text.Trimming
import Mathlib.Logic.Relation

/-! What a docstring declares, read off its lines: when a key is found, which lines the description
has, a canonical text with the same contents, and the edits of a docstring that change nothing. -/

namespace HouseRules

namespace Text

variable {line p : List Char} {ps ls : List (List Char)}

/-- The carriage return of a line end is trimmed off anyway. -/
theorem trim_withoutReturn (p : List Char) : trim (withoutReturn p) = trim p := by
  rw [withoutReturn]
  split
  · rename_i h
    obtain ⟨before, rfl⟩ := List.getLast?_eq_some_iff.1 h
    rw [List.dropLast_concat]
    exact (trim_append (a := []) (by simp [AllBlank]) before (b := ['\r'])
      (by simp [AllBlank, isBlank])).symm
  · rfl

theorem withoutReturn_of_isBare (h : IsBare p) : withoutReturn p = p := by
  refine if_neg fun last => ?_
  have := h.2 '\r' last
  simp [isBlank] at this

theorem closeLines_of_isBare (h : ∀ p ∈ ps, IsBare p ∧ p ≠ []) : closeLines ps = ps := by
  fun_induction closeLines ps with
  | case1 => rfl
  | case2 last empty => exact absurd (List.isEmpty_iff.1 empty) (h last List.mem_cons_self).2
  | case3 => rfl
  | case4 p q ps ih =>
    rw [withoutReturn_of_isBare (h p List.mem_cons_self).1,
      ih fun r hr => h r (List.mem_cons_of_mem p hr)]

theorem closeLines_cons (h : ps ≠ []) (p : List Char) :
    closeLines (p :: ps) = withoutReturn p :: closeLines ps := by
  cases ps with
  | nil => exact absurd rfl h
  | cons q ps => rfl

/-- A line that a line feed ends comes before the lines of the rest. -/
theorem lines_append_lineFeed (h : '\n' ∉ p) (s : List Char) :
    lines (p ++ '\n' :: s) = withoutReturn p :: lines s := by
  rw [lines, pieces_append_cons, pieces_of_not_mem h]
  exact closeLines_cons (pieces_ne_nil '\n' s) p

/-- Lines with nothing to trim, put together, come apart into themselves. -/
theorem lines_joinPieces (bare : ∀ p ∈ ls, IsBare p ∧ p ≠ []) (whole : ∀ p ∈ ls, '\n' ∉ p) :
    lines (joinPieces '\n' ls) = ls := by
  cases ls with
  | nil => rfl
  | cons p ps =>
    rw [lines, pieces_joinPieces (List.cons_ne_nil p ps) whole, closeLines_of_isBare bare]

end Text

namespace RuleDoc

open Text

variable {text text' : String} {doc : RuleDoc} {line key rest : List Char}
  {ls ps ps' : List (List Char)}

/-! ### Key lines -/

/-- A line that is `:key`, or `:key` and a blank and more. -/
def IsKeyLine (line : List Char) : Prop :=
  line = ":key".toList ∨ ∃ c rest, isBlank c = true ∧ line = ":key".toList ++ c :: rest

/-- What stands on a key line after the directive. -/
def afterDirective (line : List Char) : List Char := line.drop ":key".length

@[simp] theorem afterDirective_append (rest : List Char) :
    afterDirective (":key".toList ++ rest) = rest := rfl

theorem keyOf?_eq_some_iff :
    keyOf? line = some key ↔ IsKeyLine line ∧ key = trim (afterDirective line) := by
  constructor
  · intro h
    unfold keyOf? at h
    split at h
    · rename_i found
      obtain rfl := eq_append_of_afterStart? found
      exact ⟨.inl (by simp), (Option.some.inj h).symm⟩
    · rename_i c rest found
      obtain rfl := eq_append_of_afterStart? found
      split at h
      · rename_i blank
        exact ⟨.inr ⟨c, rest, blank, rfl⟩, (Option.some.inj h).symm⟩
      · cases h
    · cases h
  · rintro ⟨rfl | ⟨c, rest, blank, rfl⟩, rfl⟩
    · rfl
    · simp only [keyOf?, afterStart?_append, if_pos blank, afterDirective_append]

theorem keyOf?_eq_none_iff : keyOf? line = none ↔ ¬ IsKeyLine line := by
  rw [← Option.not_isSome_iff_eq_none, Option.isSome_iff_exists]
  simp only [keyOf?_eq_some_iff, exists_and_left, exists_eq, and_true]

/-- A key line with nothing to trim names no key only when nothing else is on it. -/
theorem trim_afterDirective_eq_nil_iff (h : IsKeyLine line) (bare : IsBare line) :
    trim (afterDirective line) = [] ↔ line = ":key".toList := by
  constructor
  · intro none
    obtain rfl | ⟨c, rest, -, rfl⟩ := h
    · rfl
    · obtain ⟨a, b, whole, ha, -, hb⟩ := exists_padding (c :: rest)
      rw [afterDirective_append] at none
      rw [none, List.append_nil] at whole
      have blanks : AllBlank (c :: rest) := fun d hd =>
        (List.mem_append.1 (whole ▸ hd)).elim (ha d) (hb d)
      have last := bare.2 ((c :: rest).getLast (List.cons_ne_nil c rest))
        (by rw [List.getLast?_append, List.getLast?_eq_some_getLast (List.cons_ne_nil c rest)]; rfl)
      rw [blanks _ (List.getLast_mem _)] at last
      cases last
  · rintro rfl
    rfl

/-! ### The first key line -/

/-- The first of some lines that is a key line. -/
def IsFirstKeyLine (ls : List (List Char)) (line : List Char) : Prop :=
  ∃ before after, ls = before ++ line :: after ∧ IsKeyLine line ∧
    ∀ earlier ∈ before, ¬ IsKeyLine earlier

theorem findSome?_keyOf?_eq_some_iff : ls.findSome? keyOf? = some key ↔
    ∃ line, IsFirstKeyLine ls line ∧ key = trim (afterDirective line) := by
  simp only [List.findSome?_eq_some_iff, keyOf?_eq_some_iff, keyOf?_eq_none_iff, IsFirstKeyLine]
  constructor
  · rintro ⟨before, line, after, whole, ⟨found, rfl⟩, earlier⟩
    exact ⟨line, ⟨before, after, whole, found, earlier⟩, rfl⟩
  · rintro ⟨line, ⟨before, after, whole, found, earlier⟩, rfl⟩
    exact ⟨before, line, after, whole, ⟨found, rfl⟩, earlier⟩

theorem findSome?_keyOf?_eq_none_iff :
    ls.findSome? keyOf? = none ↔ ∀ line ∈ ls, ¬ IsKeyLine line := by
  simp only [List.findSome?_eq_none_iff, keyOf?_eq_none_iff]

/-! ### What is read -/

theorem isBare_of_mem_trimmedLines (h : line ∈ trimmedLines text) : IsBare line := by
  obtain ⟨raw, -, rfl⟩ := List.mem_map.1 h
  exact isBare_trim raw

theorem lineFeed_not_mem_of_mem_trimmedLines (h : line ∈ trimmedLines text) : '\n' ∉ line := by
  obtain ⟨raw, hraw, rfl⟩ := List.mem_map.1 h
  exact fun hn => lineFeed_not_mem_of_mem_lines hraw (mem_of_mem_trim hn)

/-- What some trimmed lines declare. -/
def ofLines? (ls : List (List Char)) : Option RuleDoc :=
  match ls.findSome? keyOf? with
  | none => none
  | some [] => none
  | some key => some ⟨String.ofList key, String.ofList (joinPieces '\n' (ls.filter isDescriptive))⟩

theorem parse?_eq_ofLines? (text : String) : parse? text = ofLines? (trimmedLines text) := rfl

theorem ofLines?_eq_none_iff : ofLines? ls = none ↔
    ls.findSome? keyOf? = none ∨ ls.findSome? keyOf? = some [] := by
  rw [ofLines?]
  split <;> simp_all

theorem ofLines?_eq_some_iff : ofLines? ls = some doc ↔
    ls.findSome? keyOf? = some doc.key.toList ∧ doc.key ≠ "" ∧
      doc.description.toList = joinPieces '\n' (ls.filter isDescriptive) := by
  have named : doc.key ≠ "" ↔ doc.key.toList ≠ [] := String.toList_eq_nil_iff.symm.not
  rw [ofLines?, named]
  generalize ls.findSome? keyOf? = found
  split
  · simp
  · simp only [reduceCtorEq, Option.some_inj, false_iff]
    exact fun h => h.2.1 h.1.symm
  · rename_i key nonempty
    rw [Option.some_inj, Option.some_inj]
    constructor
    · rintro rfl
      simp only [String.toList_ofList]
      exact ⟨trivial, fun none => nonempty (none ▸ rfl), trivial⟩
    · rintro ⟨rfl, -, described⟩
      rw [← described, String.ofList_toList, String.ofList_toList]

theorem parse?_eq_none_iff : parse? text = none ↔
    (∀ line ∈ trimmedLines text, ¬ IsKeyLine line) ∨
      IsFirstKeyLine (trimmedLines text) ":key".toList := by
  rw [parse?_eq_ofLines?, ofLines?_eq_none_iff, findSome?_keyOf?_eq_none_iff,
    findSome?_keyOf?_eq_some_iff]
  refine or_congr_right ⟨?_, fun h => ⟨_, h, rfl⟩⟩
  rintro ⟨line, first, none⟩
  obtain ⟨before, after, whole, found, -⟩ := id first
  have mem : line ∈ trimmedLines text := by simp [whole]
  have bare := isBare_of_mem_trimmedLines mem
  exact (trim_afterDirective_eq_nil_iff found bare).1 none.symm ▸ first

/-- The lines of a docstring that its description has: the ones that are neither empty nor
directives. -/
def describing (text : String) : List (List Char) :=
  (trimmedLines text).filter fun line => line ≠ [] ∧ line.head? ≠ some ':'

theorem isDescriptive_iff : isDescriptive line = true ↔ line ≠ [] ∧ line.head? ≠ some ':' := by
  simp [isDescriptive]

theorem filter_isDescriptive (text : String) :
    (trimmedLines text).filter isDescriptive = describing text :=
  List.filter_congr fun line _ => by rw [Bool.eq_iff_iff, isDescriptive_iff, decide_eq_true_iff]

theorem of_mem_describing (h : line ∈ describing text) :
    IsBare line ∧ line ≠ [] ∧ '\n' ∉ line := by
  obtain ⟨mem, descriptive⟩ := List.mem_filter.1 h
  exact ⟨isBare_of_mem_trimmedLines mem, (of_decide_eq_true descriptive).1,
    lineFeed_not_mem_of_mem_trimmedLines mem⟩

theorem parse?_eq_some_iff : parse? text = some doc ↔
    (∃ line, IsFirstKeyLine (trimmedLines text) line ∧
      doc.key.toList = trim (afterDirective line)) ∧
    doc.key ≠ "" ∧ doc.description.toList = joinPieces '\n' (describing text) := by
  rw [parse?_eq_ofLines?, ofLines?_eq_some_iff, findSome?_keyOf?_eq_some_iff, filter_isDescriptive]

/-- The lines of a description are the ones it was made of. Cutting it at line feeds gives them
too, unless there are none. -/
theorem lines_description (h : parse? text = some doc) :
    lines doc.description.toList = describing text ∧
      (describing text ≠ [] → pieces '\n' doc.description.toList = describing text) := by
  obtain ⟨-, -, described⟩ := parse?_eq_some_iff.1 h
  have whole : ∀ line ∈ describing text, '\n' ∉ line := fun line hl => (of_mem_describing hl).2.2
  rw [described]
  exact ⟨lines_joinPieces (fun line hl => ⟨(of_mem_describing hl).1, (of_mem_describing hl).2.1⟩)
    whole, fun some => pieces_joinPieces some whole⟩

theorem isBare_key (h : parse? text = some doc) : IsBare doc.key.toList := by
  obtain ⟨⟨line, -, hkey⟩, -⟩ := parse?_eq_some_iff.1 h
  exact hkey ▸ isBare_trim _

/-! ### The canonical docstring -/

/-- The docstring that declares a key and a description and nothing else. -/
def canonical (doc : RuleDoc) : String := ":key " ++ doc.key ++ "\n" ++ doc.description

/-- Trimming changes nothing on the key line of a canonical docstring. -/
theorem isBare_keyLine (hkey : IsBare key) (hne : key ≠ []) : IsBare (":key ".toList ++ key) := by
  constructor
  · rintro c ⟨⟩
    rfl
  · rw [List.getLast?_append_of_ne_nil _ hne]
    exact hkey.2

theorem trimmedLines_canonical (h : parse? text = some doc) :
    trimmedLines doc.canonical = (":key ".toList ++ doc.key.toList) :: describing text := by
  have hne : doc.key.toList ≠ [] :=
    mt String.toList_eq_nil_iff.1 (parse?_eq_some_iff.1 h).2.1
  have cut : doc.canonical.toList =
      (":key ".toList ++ doc.key.toList) ++ '\n' :: doc.description.toList := by
    simp [canonical]
  have whole : '\n' ∉ ":key ".toList ++ doc.key.toList := by
    simpa using lineFeed_not_mem_key h
  rw [trimmedLines, cut, lines_append_lineFeed whole, List.map_cons, trim_withoutReturn,
    trim_of_isBare (isBare_keyLine (isBare_key h) hne), (lines_description h).1]
  exact congrArg _ ((List.map_congr_left fun line hl =>
    trim_of_isBare (of_mem_describing hl).1).trans (List.map_id _))

theorem describing_canonical (h : parse? text = some doc) :
    describing doc.canonical = describing text := by
  rw [describing, trimmedLines_canonical h, List.filter_cons_of_neg (by simp)]
  exact List.filter_eq_self.2 fun line hl => (List.mem_filter.1 hl).2

theorem parse?_canonical (h : parse? text = some doc) : parse? doc.canonical = some doc := by
  have keyLine : IsKeyLine (":key ".toList ++ doc.key.toList) := .inr ⟨' ', _, rfl, rfl⟩
  have key : trim (' ' :: doc.key.toList) = doc.key.toList := by
    have := trim_padded (a := [' ']) (b := []) (by simp [AllBlank, isBlank]) (isBare_key h)
      (by simp [AllBlank])
    rwa [List.append_nil] at this
  obtain ⟨-, named, described⟩ := parse?_eq_some_iff.1 h
  exact parse?_eq_some_iff.2 ⟨⟨_, ⟨[], describing text, trimmedLines_canonical h, keyLine,
    by simp⟩, key.symm⟩, named, described.trans (by rw [describing_canonical h])⟩

/-! ### Edits that change nothing -/

/-- A line of a docstring that declares nothing: a blank one, or a directive that is no key
line. -/
def IsIdle (line : List Char) : Prop :=
  trim line = [] ∨ (trim line).head? = some ':' ∧ ¬ IsKeyLine (trim line)

/-- More blanks around one line, or one idle line more. -/
inductive LineEdit : List (List Char) → List (List Char) → Prop
  | blanks (before : List (List Char)) (line : List Char) (after : List (List Char))
      (a b : List Char) (ha : AllBlank a) (hb : AllBlank b) :
      LineEdit (before ++ line :: after) (before ++ (a ++ line ++ b) :: after)
  | idle (before : List (List Char)) (line : List Char) (after : List (List Char))
      (h : IsIdle line) : LineEdit (before ++ after) (before ++ line :: after)

/-- Two texts whose lines are the same up to blanks around them and up to idle lines. -/
def SameUpToIdle (text text' : String) : Prop :=
  Relation.EqvGen LineEdit (pieces '\n' text.toList) (pieces '\n' text'.toList)

/-- Whether a trimmed line declares something. -/
def counts (line : List Char) : Bool := (keyOf? line).isSome || isDescriptive line

/-- The trimmed lines that declare something. -/
def content (ps : List (List Char)) : List (List Char) := (ps.map trim).filter counts

theorem counts_trim_of_isIdle (h : IsIdle line) : counts (trim line) = false := by
  obtain h | ⟨directive, other⟩ := h
  · rw [h]
    rfl
  · simp [counts, keyOf?_eq_none_iff.2 other, isDescriptive, directive]

theorem content_eq_of_lineEdit (h : LineEdit ps ps') : content ps = content ps' := by
  cases h with
  | blanks before line after a b ha hb => simp only [content, List.map_append, List.map_cons,
      trim_append ha line hb]
  | idle before line after h => simp only [content, List.map_append, List.map_cons,
      List.filter_append, List.filter_cons, counts_trim_of_isIdle h, Bool.false_eq_true, if_false]

theorem content_eq_of_eqvGen (h : Relation.EqvGen LineEdit ps ps') : content ps = content ps' := by
  induction h with
  | rel _ _ edit => exact content_eq_of_lineEdit edit
  | refl _ => rfl
  | symm _ _ _ ih => exact ih.symm
  | trans _ _ _ _ _ ih ih' => exact ih.trans ih'

/-- Line ends have no part in what the lines declare. -/
theorem filter_counts_closeLines (ps : List (List Char)) :
    ((closeLines ps).map trim).filter counts = content ps := by
  fun_induction closeLines ps with
  | case1 => rfl
  | case2 last empty => rw [List.isEmpty_iff.1 empty]; rfl
  | case3 => rfl
  | case4 p q ps ih =>
    rw [content, List.map_cons, List.map_cons, trim_withoutReturn, List.filter_cons,
      List.filter_cons, ih]
    rfl

/-- Only lines that declare something have a part in what is read. -/
theorem ofLines?_filter_counts (ls : List (List Char)) :
    ofLines? (ls.filter counts) = ofLines? ls := by
  have keys : (ls.filter counts).findSome? keyOf? = ls.findSome? keyOf? := by
    induction ls with
    | nil => rfl
    | cons line ls ih =>
      cases hk : keyOf? line <;> cases hd : isDescriptive line <;> simp [counts, hk, hd, ih]
  have described : (ls.filter counts).filter isDescriptive = ls.filter isDescriptive := by
    rw [List.filter_filter]
    refine List.filter_congr fun line _ => ?_
    rw [counts]
    cases isDescriptive line <;> simp
  rw [ofLines?, ofLines?, keys, described]

theorem parse?_eq_ofLines?_content (text : String) :
    parse? text = ofLines? (content (pieces '\n' text.toList)) := by
  rw [parse?_eq_ofLines?, ← ofLines?_filter_counts, ← filter_counts_closeLines]
  rfl

/-- What a docstring declares is read off its trimmed lines. There is nothing to read without a key
line, or when the first one is bare. Otherwise the key is what the first key line has, the
description has the lines that are neither empty nor directives, and the canonical docstring of
both declares the same. No blanks around lines and no idle lines change any of it. -/
theorem parse?_reads_lines (text : String) :
    (parse? text = none ↔ (∀ line ∈ trimmedLines text, ¬ IsKeyLine line) ∨
      IsFirstKeyLine (trimmedLines text) ":key".toList) ∧
    (∀ doc, parse? text = some doc →
      (∃ line, IsFirstKeyLine (trimmedLines text) line ∧
        doc.key.toList = trim (afterDirective line)) ∧
      doc.key ≠ "" ∧ trimmed doc.key = doc.key ∧ '\n' ∉ doc.key.toList ∧
      lines doc.description.toList = describing text ∧
      (describing text ≠ [] → pieces '\n' doc.description.toList = describing text) ∧
      (describing text = [] → doc.description = "") ∧
      parse? (":key " ++ doc.key ++ "\n" ++ doc.description) = some doc) ∧
    ∀ text', SameUpToIdle text text' → parse? text' = parse? text := by
  refine ⟨parse?_eq_none_iff, fun doc h => ?_, fun text' edits => ?_⟩
  · obtain ⟨first, named, described⟩ := parse?_eq_some_iff.1 h
    obtain ⟨descriptionLines, descriptionPieces⟩ := lines_description h
    refine ⟨first, named, ?_, lineFeed_not_mem_key h, descriptionLines, descriptionPieces,
      fun none => ?_, parse?_canonical h⟩
    · rw [trimmed, trim_of_isBare (isBare_key h), String.ofList_toList]
    · rw [none] at described
      exact String.toList_eq_nil_iff.1 described
  · rw [parse?_eq_ofLines?_content, parse?_eq_ofLines?_content, content_eq_of_eqvGen edits]

theorem parse?_reads_lines_level :
    let text := "Checks.\n :key a.b\n"
    let text' := "Checks.\n:level 3\n :key a.b\n"
    parse? text = some ⟨"a.b", "Checks."⟩ ∧ SameUpToIdle text text' ∧
      parse? text' = parse? text ∧ parse? ":key a.b\nChecks." = some ⟨"a.b", "Checks."⟩ := by
  intro text text'
  have parsed : parse? text = some ⟨"a.b", "Checks."⟩ := by decide +kernel
  have idle : IsIdle ":level 3".toList := by
    refine .inr ⟨by decide +kernel, fun keyLine => ?_⟩
    exact absurd (keyOf?_eq_some_iff.2 ⟨keyLine, rfl⟩) (by decide +kernel)
  have before : pieces '\n' text.toList = ["Checks.".toList, " :key a.b".toList, []] := by
    decide +kernel
  have after : pieces '\n' text'.toList =
      ["Checks.".toList, ":level 3".toList, " :key a.b".toList, []] := by decide +kernel
  have edited : SameUpToIdle text text' := by
    rw [SameUpToIdle, before, after]
    exact .rel _ _ (.idle ["Checks.".toList] ":level 3".toList [" :key a.b".toList, []] idle)
  obtain ⟨-, found, same⟩ := parse?_reads_lines text
  obtain ⟨-, -, -, -, -, -, -, again⟩ := found _ parsed
  exact ⟨parsed, edited, same text' edited, again⟩

end RuleDoc

end HouseRules
