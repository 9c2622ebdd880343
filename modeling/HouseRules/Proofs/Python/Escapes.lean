import HouseRules.Proofs.Python.Spelling
import HouseRules.Proofs.Text.ByteSize

/-! Decoding of any text as the body of a literal, also of one that no literal has. The body is cut
into stretches in one way: characters, escapes of a character, line ends that are skipped, and
escapes that are not understood, which stay as they are. No stretch gets longer, in characters or
in bytes. -/

namespace HouseRules.Python

/-! ### Stretches -/

/-- A stretch of a body that is decoded at once. -/
inductive Stretch where
  | plain (c : Char)
  | escaped (source : List Char) (c : Char)
  | continued (source : List Char)
  | kept (source : List Char)

namespace Stretch

/-- The characters of the body that the stretch takes. -/
def source : Stretch → List Char
  | plain c => [c]
  | escaped source _ | continued source | kept source => source

/-- The characters that the stretch is decoded to. -/
def output : Stretch → List Char
  | plain c | escaped _ c => [c]
  | continued _ => []
  | kept source => source

/-- Which stretches a body may start with, before the rest of it. -/
inductive Before : Stretch → List Char → Prop where
  | plain {c : Char} {rest : List Char} (h : c ≠ '\\') : Before (plain c) rest
  | named {letter c : Char} {rest : List Char} (h : (letter, c) ∈ namedEscapes) :
      Before (escaped ['\\', letter] c) rest
  | hex {letter c : Char} {width : Nat} {digits rest : List Char}
      (h : (letter, width) ∈ hexEscapes) (numeral : Text.Numeral 16 digits c.toNat)
      (length : digits.length = width) : Before (escaped ('\\' :: letter :: digits) c) rest
  | octal {c : Char} {digits rest : List Char} (numeral : Text.Numeral 8 digits c.toNat)
      (ne_nil : digits ≠ []) (ends : OctalEnds digits rest) :
      Before (escaped ('\\' :: digits) c) rest
  | lineFeed {rest : List Char} : Before (continued ['\\', '\n']) rest
  | carriageReturn {rest : List Char} (h : rest.head? ≠ some '\n') :
      Before (continued ['\\', '\r']) rest
  | lineEnd {rest : List Char} : Before (continued ['\\', '\r', '\n']) rest
  /-- No escape has the letter. -/
  | letter {c : Char} {rest : List Char} (named : ∀ x, (c, x) ∉ namedEscapes)
      (hex : ∀ width, (c, width) ∉ hexEscapes) (octal : ∀ d < 8, ¬Text.IsDigit c d)
      (other : c ∉ ['\n', '\r']) : Before (kept ['\\', c]) rest
  /-- The letter asks for more digits than there are. -/
  | short {letter : Char} {width n : Nat} {digits rest : List Char}
      (h : (letter, width) ∈ hexEscapes) (numeral : Text.Numeral 16 digits n)
      (length : digits.length < width) (ends : ∀ c ∈ rest.head?, ∀ d < 16, ¬Text.IsDigit c d) :
      Before (kept ('\\' :: letter :: digits)) rest
  /-- The number is no code of a character. -/
  | noCharacter {letter : Char} {width n : Nat} {digits rest : List Char}
      (h : (letter, width) ∈ hexEscapes) (numeral : Text.Numeral 16 digits n)
      (length : digits.length = width) (none : ∀ c : Char, c.toNat ≠ n) :
      Before (kept ('\\' :: letter :: digits)) rest
  | final : Before (kept ['\\']) []

end Stretch

/-- A body cut into stretches, each of them before the ones after it. -/
inductive Cuts : List Stretch → List Char → Prop where
  | nil : Cuts [] []
  | cons {x : Stretch} {xs : List Stretch} {rest : List Char} (first : x.Before rest)
      (more : Cuts xs rest) : Cuts (x :: xs) (x.source ++ rest)

/-! ### Decoding a stretch -/

theorem OctalEnds.lt_of_numeral {n : Nat} {digits rest : List Char} (ends : OctalEnds digits rest)
    (numeral : Text.Numeral 8 digits n) : n < 8 ^ 3 := by
  have hlength : digits.length ≤ 3 := by
    obtain three | ⟨fewer, -⟩ := ends
    · exact Nat.le_of_eq three
    · exact Nat.le_of_lt fewer
  exact Nat.lt_of_lt_of_le numeral.lt_pow (Nat.pow_le_pow_right (by decide) hlength)

theorem hexEscape_short {letter : Char} {width n : Nat} {digits rest : List Char}
    (numeral : Text.Numeral 16 digits n) (length : digits.length < width)
    (ends : ∀ c ∈ rest.head?, ∀ d < 16, ¬Text.IsDigit c d) :
    hexEscape letter width (digits ++ rest) = ('\\' :: letter :: digits, digits.length + 1) := by
  have leading : leadingDigits 16 width (digits ++ rest) = digits :=
    leadingDigits_append (fun c mem => numeral.isDigitIn (by decide) mem) (Nat.le_of_lt length)
      (.inr fun c head => isDigitIn_eq_false (by decide) (ends c head))
  rw [hexEscape, leading, if_neg (Nat.ne_of_lt length)]

theorem hexEscape_noCharacter {letter : Char} {width n : Nat} {digits : List Char}
    (numeral : Text.Numeral 16 digits n) (hne : digits ≠ []) (length : digits.length = width)
    (none : ∀ c : Char, c.toNat ≠ n) (rest : List Char) :
    hexEscape letter width (digits ++ rest) = ('\\' :: letter :: digits, digits.length + 1) := by
  have leading : leadingDigits 16 width (digits ++ rest) = digits :=
    leadingDigits_append (fun c mem => numeral.isDigitIn (by decide) mem) (Nat.le_of_eq length)
      (.inl length)
  rw [hexEscape, leading, if_pos length, numeral.number? hne, Option.bind_some,
    Text.scalar?_eq_none none]

namespace Stretch

variable {x y : Stretch} {rest rest' : List Char}

/-- A stretch is a character or what a backslash and the text after it contribute. -/
theorem Before.step (h : x.Before rest) :
    (∃ c, x = .plain c ∧ c ≠ '\\') ∨
      ∃ used, x.source = '\\' :: used ∧ escape (used ++ rest) = (x.output, used.length) := by
  cases h with
  | plain ne => exact .inl ⟨_, rfl, ne⟩
  | @named letter c rest mem => exact .inr ⟨[letter], rfl, escape_named mem rest⟩
  | hex mem numeral length => exact .inr ⟨_, rfl, escape_hex_append mem numeral length rest⟩
  | octal numeral ne_nil ends => exact .inr ⟨_, rfl, escape_octal_append numeral ne_nil ends⟩
  | lineFeed => exact .inr ⟨['\n'], rfl, rfl⟩
  | carriageReturn other => exact .inr ⟨['\r'], rfl, escape_carriageReturn other⟩
  | lineEnd => exact .inr ⟨['\r', '\n'], rfl, rfl⟩
  | @letter c rest named hex octal other =>
    obtain ⟨hn, hr⟩ : c ≠ '\n' ∧ c ≠ '\r' := by simpa using other
    exact .inr ⟨[c], rfl, escape_other named hex octal hn hr rest⟩
  | short mem numeral length ends =>
    exact .inr ⟨_, rfl, (escape_hex mem _).trans (hexEscape_short numeral length ends)⟩
  | noCharacter mem numeral length none =>
    have hne := ne_nil_of_mem_hexEscapes mem length
    exact .inr ⟨_, rfl,
      (escape_hex mem _).trans (hexEscape_noCharacter numeral hne length none rest)⟩
  | final => exact .inr ⟨[], rfl, rfl⟩

theorem Before.source_ne_nil (h : x.Before rest) : x.source ≠ [] := by
  obtain ⟨c, rfl, -⟩ | ⟨used, hsource, -⟩ := h.step
  · exact List.cons_ne_nil c []
  · exact hsource ▸ List.cons_ne_nil _ used

/-- Decoding goes on right after a stretch. -/
theorem Before.unescape_append (h : x.Before rest) :
    unescape (x.source ++ rest) = x.output ++ unescape rest := by
  obtain ⟨c, rfl, ne⟩ | ⟨used, hsource, hescape⟩ := h.step
  · exact unescape_plain ne rest
  · rw [hsource, List.cons_append, unescape_escape hescape]

/-! ### Sizes -/

/-- The source of an escape has at least as many characters as the escaped one has bytes. -/
theorem Before.utf8Size_le {s : List Char} {c : Char} (h : (escaped s c).Before rest) :
    2 ≤ s.length ∧ c.utf8Size ≤ s.length := by
  cases h with
  | @named letter c rest mem =>
    have all : ∀ e ∈ namedEscapes, e.2.utf8Size = 1 := by decide
    exact ⟨Nat.le_refl 2, Nat.le_trans (Nat.le_of_eq (all (letter, c) mem)) (Nat.le_succ 1)⟩
  | @hex letter c width digits rest mem numeral length =>
    have all : ∀ e ∈ hexEscapes, 2 ≤ e.2 := by decide
    have hwidth : 2 ≤ width := all (letter, width) mem
    -- four bytes at most, and as many characters even with the fewest digits
    have hsize := c.utf8Size_le_four
    simp only [List.length_cons, length]
    omega
  | octal numeral ne_nil ends =>
    have code : c.toNat < 0x800 := Nat.lt_trans (ends.lt_of_numeral numeral) (by decide)
    have hpos := List.length_pos_iff.2 ne_nil
    have hsize := Text.utf8Size_le_two code
    simp only [List.length_cons]
    omega

theorem Before.length_output_le (h : x.Before rest) : x.output.length ≤ x.source.length := by
  cases x with
  | plain c => exact Nat.le_refl 1
  | escaped s c => exact Nat.le_trans (Nat.le_succ 1) h.utf8Size_le.1
  | continued s => exact Nat.zero_le _
  | kept s => exact Nat.le_refl _

theorem Before.utf8ByteSize_output_le (h : x.Before rest) :
    (String.ofList x.output).utf8ByteSize ≤ (String.ofList x.source).utf8ByteSize := by
  cases x with
  | plain c => exact Nat.le_refl _
  | escaped s c =>
    have single : (String.ofList [c]).utf8ByteSize = c.utf8Size := by
      rw [← String.singleton_eq_ofList, String.utf8ByteSize_singleton]
    exact single ▸ Nat.le_trans h.utf8Size_le.2 (Text.length_le_utf8ByteSize_ofList s)
  | continued s => exact Nat.zero_le _
  | kept s => exact Nat.le_refl _

/-! ### Every body starts with one stretch -/

theorem exists_before_hex {letter : Char} {width : Nat} (h : (letter, width) ∈ hexEscapes)
    (s : List Char) :
    ∃ x rest, Before x rest ∧ '\\' :: letter :: s = x.source ++ rest := by
  obtain ⟨digits, rest, n, rfl, numeral, length | ⟨length, ends⟩⟩ :=
    Text.Numeral.exists_append (show 16 ≤ 16 by decide) width s
  · by_cases character : ∃ c : Char, c.toNat = n
    · obtain ⟨c, rfl⟩ := character
      exact ⟨_, rest, .hex h numeral length, rfl⟩
    · exact ⟨_, rest, .noCharacter h numeral length (not_exists.1 character), rfl⟩
  · exact ⟨_, rest, .short h numeral length ends, rfl⟩

/-- Octal digits are at most three and always the code of a character. -/
theorem exists_before_octal {c : Char} {d : Nat} (lt : d < 8) (digit : Text.IsDigit c d)
    (s : List Char) : ∃ x rest, Before x rest ∧ '\\' :: c :: s = x.source ++ rest := by
  obtain ⟨digits, rest, n, hs, numeral, ends⟩ :=
    Text.Numeral.exists_append (show 8 ≤ 16 by decide) 3 (c :: s)
  have ne_nil : digits ≠ [] := by
    rintro rfl
    obtain three | ⟨-, ends⟩ := ends
    · cases three
    · rw [List.nil_append] at hs
      exact ends c (by rw [← hs]; rfl) d lt digit
  obtain ⟨c, rfl⟩ : ∃ c : Char, c.toNat = n :=
    Text.exists_toNat_eq (Nat.lt_trans (OctalEnds.lt_of_numeral ends numeral) (by decide))
  exact ⟨_, rest, .octal numeral ne_nil ends, by rw [hs]; rfl⟩

theorem exists_before (c : Char) (s : List Char) :
    ∃ x rest, Before x rest ∧ c :: s = x.source ++ rest := by
  by_cases backslash : c = '\\'
  · subst backslash
    cases s with
    | nil => exact ⟨_, [], .final, rfl⟩
    | cons c s =>
      by_cases hn : c = '\n'
      · subst hn
        exact ⟨_, s, .lineFeed, rfl⟩
      by_cases hr : c = '\r'
      · subst hr
        by_cases lineEnd : s.head? = some '\n'
        · obtain ⟨s, rfl⟩ := List.head?_eq_some_iff.1 lineEnd
          exact ⟨_, s, .lineEnd, rfl⟩
        · exact ⟨_, s, .carriageReturn lineEnd, rfl⟩
      by_cases named : ∃ x, (c, x) ∈ namedEscapes
      · obtain ⟨x, mem⟩ := named
        exact ⟨_, s, .named mem, rfl⟩
      by_cases hex : ∃ width, (c, width) ∈ hexEscapes
      · obtain ⟨width, mem⟩ := hex
        exact exists_before_hex mem s
      by_cases octal : ∃ d < 8, Text.IsDigit c d
      · obtain ⟨d, lt, digit⟩ := octal
        exact exists_before_octal lt digit s
      · refine ⟨_, s, .letter (not_exists.1 named) (not_exists.1 hex) ?_ (by simp [hn, hr]), rfl⟩
        exact fun d lt digit => octal ⟨d, lt, digit⟩
  · exact ⟨_, s, .plain backslash, rfl⟩

/-! ### No body starts with two -/

/-- The stretch with a source and an output: an escape is longer than its character, and what is
kept starts with a backslash. -/
def ofParts (source output : List Char) : Stretch :=
  match output with
  | [] => continued source
  | c :: _ =>
    if output ≠ source then escaped source c else if c = '\\' then kept source else plain c

theorem Before.eq_ofParts (h : x.Before rest) : x = ofParts x.source x.output := by
  cases x with
  | plain c =>
    cases h with
    | plain ne => simp [ofParts, source, output, ne]
  | escaped s c =>
    have longer : [c] ≠ s := by
      rintro rfl
      exact Nat.not_succ_le_self 1 h.utf8Size_le.1
    exact (if_pos longer).symm
  | continued s => rfl
  | kept s =>
    obtain ⟨_, ⟨⟩, -⟩ | ⟨used, hsource, -⟩ := h.step
    obtain rfl : s = '\\' :: used := hsource
    simp [ofParts, source, output]

theorem Before.eq_of_append_eq (h : x.Before rest) (h' : y.Before rest')
    (same : x.source ++ rest = y.source ++ rest') : x = y ∧ rest = rest' := by
  -- both are characters, or both are what the backslash in front of the same text contributes
  obtain ⟨c, rfl, ne⟩ | ⟨used, hsource, hescape⟩ := h.step
  · obtain ⟨c', rfl, -⟩ | ⟨used', hsource', -⟩ := h'.step
    · obtain ⟨rfl, rfl⟩ := List.cons.inj same
      exact ⟨rfl, rfl⟩
    · rw [hsource'] at same
      exact absurd (List.cons.inj same).1 ne
  · obtain ⟨c', rfl, ne⟩ | ⟨used', hsource', hescape'⟩ := h'.step
    · rw [hsource] at same
      exact absurd (List.cons.inj same).1.symm ne
    · rw [hsource, hsource', List.cons_append, List.cons_append] at same
      have tails := (List.cons.inj same).2
      rw [tails, hescape'] at hescape
      obtain ⟨houtput, hlength⟩ := Prod.mk.inj hescape
      obtain ⟨rfl, hrest⟩ := List.append_inj tails hlength.symm
      refine ⟨?_, hrest⟩
      rw [h.eq_ofParts, h'.eq_ofParts, hsource, hsource', houtput]

end Stretch

/-! ### Whole bodies -/

namespace Cuts

variable {cut other : List Stretch} {body : List Char}

theorem flatMap_source (h : Cuts cut body) : cut.flatMap Stretch.source = body := by
  induction h with
  | nil => rfl
  | cons first more ih => rw [List.flatMap_cons, ih]

theorem unescape_eq (h : Cuts cut body) : unescape body = cut.flatMap Stretch.output := by
  induction h with
  | nil => rfl
  | cons first more ih => rw [first.unescape_append, ih, List.flatMap_cons]

theorem length_unescape_le (h : Cuts cut body) : (unescape body).length ≤ body.length := by
  induction h with
  | nil => exact Nat.le_refl _
  | cons first more ih =>
    rw [first.unescape_append, List.length_append, List.length_append]
    exact Nat.add_le_add first.length_output_le ih

theorem utf8ByteSize_unescape_le (h : Cuts cut body) :
    (String.ofList (unescape body)).utf8ByteSize ≤ (String.ofList body).utf8ByteSize := by
  induction h with
  | nil => exact Nat.le_refl _
  | cons first more ih =>
    rw [first.unescape_append, String.ofList_append, String.ofList_append,
      String.utf8ByteSize_append, String.utf8ByteSize_append]
    exact Nat.add_le_add first.utf8ByteSize_output_le ih

theorem eq_nil (h : Cuts cut []) : cut = [] := by
  generalize hbody : [] = body at h
  cases h with
  | nil => rfl
  | cons first more => exact absurd (List.append_eq_nil_iff.1 hbody.symm).1 first.source_ne_nil

theorem unique (h : Cuts cut body) (h' : Cuts other body) : other = cut := by
  induction h generalizing other with
  | nil => exact h'.eq_nil
  | @cons x xs rest first more ih =>
    generalize hbody : x.source ++ rest = body at h'
    cases h' with
    | nil => exact absurd (List.append_eq_nil_iff.1 hbody).1 first.source_ne_nil
    | cons first' more' =>
      obtain ⟨rfl, rfl⟩ := first.eq_of_append_eq first' hbody
      rw [ih more']

end Cuts

/-- Every body can be cut: a first stretch leaves a shorter rest. -/
theorem exists_cuts (body : List Char) : ∃ cut, Cuts cut body := by
  induction hlength : body.length using Nat.strongRecOn generalizing body with
  | _ n ih =>
    cases body with
    | nil => exact ⟨[], .nil⟩
    | cons c s =>
      obtain ⟨x, rest, first, hs⟩ := Stretch.exists_before c s
      have hpos := List.length_pos_iff.2 first.source_ne_nil
      have shorter : rest.length < n := by
        rw [← hlength, hs, List.length_append]
        omega
      obtain ⟨xs, more⟩ := ih rest.length shorter rest rfl
      exact ⟨x :: xs, hs ▸ .cons first more⟩

theorem unescape_of_not_mem {body : List Char} (h : '\\' ∉ body) : unescape body = body := by
  induction body with
  | nil => rfl
  | cons c body ih =>
    rw [List.mem_cons, not_or] at h
    rw [unescape_plain (Ne.symm h.1), ih h.2]

/-- Decoding makes no body longer, leaves one without backslashes as it is, and keeps what it does
not understand. Every body is cut into stretches in one way, and only escapes of a character and
line ends that are skipped are decoded to something else than themselves. -/
theorem unescape_keeps :
    (∀ body : List Char, (unescape body).length ≤ body.length ∧
      (String.ofList (unescape body)).utf8ByteSize ≤ (String.ofList body).utf8ByteSize) ∧
    (∀ body : List Char, '\\' ∉ body → unescape body = body) ∧
    (∀ source rest : List Char, (Stretch.kept source).Before rest →
      unescape (source ++ rest) = source ++ unescape rest) ∧
    ∀ body : List Char, ∃ cut, Cuts cut body ∧ (∀ other, Cuts other body → other = cut) ∧
      body = cut.flatMap Stretch.source ∧ unescape body = cut.flatMap Stretch.output := by
  refine ⟨fun body => ?_, fun body h => unescape_of_not_mem h,
    fun source rest h => h.unescape_append, fun body => ?_⟩
  · obtain ⟨cut, cuts⟩ := exists_cuts body
    exact ⟨cuts.length_unescape_le, cuts.utf8ByteSize_unescape_le⟩
  · obtain ⟨cut, cuts⟩ := exists_cuts body
    exact ⟨cut, cuts, fun other => cuts.unique, cuts.flatMap_source.symm, cuts.unescape_eq⟩

/-- An escape with too few digits next to one that is understood. -/
theorem unescape_keeps_short :
    '\\' ∉ "é1".toList ∧ unescape "é1".toList = "é1".toList ∧
    (Stretch.kept "\\x4".toList).Before "\\u00e9\\".toList ∧
    unescape "\\x4\\u00e9\\".toList = "\\x4é\\".toList := by
  obtain ⟨-, plain, keeps, -⟩ := unescape_keeps
  have absent : '\\' ∉ "é1".toList := by decide
  have letter : ('x', 2) ∈ hexEscapes := by decide
  have four : Text.Numeral 16 ['4'] 4 := Text.Numeral.of_foldlM (by decide) (by decide)
  have ends : ∀ c ∈ "\\u00e9\\".toList.head?, ∀ d < 16, ¬Text.IsDigit c d := by
    rintro _ ⟨⟩
    decide
  have short : (Stretch.kept "\\x4".toList).Before "\\u00e9\\".toList :=
    .short letter four (by decide) ends
  have rest : unescape "\\u00e9\\".toList = "é\\".toList := by decide +kernel
  refine ⟨absent, plain _ absent, short, (keeps _ _ short).trans ?_⟩
  rw [rest]
  rfl

end HouseRules.Python
