import HouseRules.Proofs.Text.Numeral
import HouseRules.Python.StringLiteral
import Mathlib.Data.List.Forall2

/-! How string literals spell a text: characters as they are, escapes of all forms, line ends that
are skipped, the prefixes of plain and raw literals and the delimiters. Decoding a literal gives
the text that it spells. -/

namespace HouseRules.Python

/-! ### Spellings -/

/-- The letters of escapes and the characters that they stand for. -/
def namedEscapes : List (Char × Char) := [
  ('\\', '\\'), ('\'', '\''), ('"', '"'), ('a', '\x07'), ('b', '\x08'), ('f', '\x0c'),
  ('n', '\n'), ('r', '\r'), ('t', '\t'), ('v', '\x0b')]

/-- The letters of escapes by number, and how many hexadecimal digits follow each. -/
def hexEscapes : List (Char × Nat) := [('x', 2), ('u', 4), ('U', 8)]

/-- Whether an octal escape of the digits ends before the rest: it goes on to three digits while
digits follow. -/
def OctalEnds (digits rest : List Char) : Prop :=
  digits.length = 3 ∨
    (digits.length < 3 ∧ ∀ c ∈ rest.head?, ∀ d < 8, ¬Text.IsDigit c d)

/-- The body of a literal spells a text. -/
inductive Spells : List Char → List Char → Prop where
  | nil : Spells [] []
  | plain {c : Char} {body text : List Char} (h : c ≠ '\\') (rest : Spells body text) :
      Spells (c :: body) (c :: text)
  | named {letter c : Char} {body text : List Char} (h : (letter, c) ∈ namedEscapes)
      (rest : Spells body text) : Spells ('\\' :: letter :: body) (c :: text)
  | hex {letter c : Char} {width : Nat} {digits body text : List Char}
      (h : (letter, width) ∈ hexEscapes) (numeral : Text.Numeral 16 digits c.toNat)
      (length : digits.length = width) (rest : Spells body text) :
      Spells ('\\' :: letter :: (digits ++ body)) (c :: text)
  | octal {c : Char} {digits body text : List Char} (numeral : Text.Numeral 8 digits c.toNat)
      (ne_nil : digits ≠ []) (ends : OctalEnds digits body) (rest : Spells body text) :
      Spells ('\\' :: (digits ++ body)) (c :: text)
  | lineFeed {body text : List Char} (rest : Spells body text) : Spells ('\\' :: '\n' :: body) text
  | carriageReturn {body text : List Char} (h : body.head? ≠ some '\n')
      (rest : Spells body text) : Spells ('\\' :: '\r' :: body) text
  | lineEnd {body text : List Char} (rest : Spells body text) :
      Spells ('\\' :: '\r' :: '\n' :: body) text
  /-- A backslash that starts no escape stands for itself. -/
  | backslash {c : Char} {body text : List Char} (named : ∀ x, (c, x) ∉ namedEscapes)
      (hex : ∀ width, (c, width) ∉ hexEscapes) (octal : ∀ d < 8, ¬Text.IsDigit c d)
      (other : c ∉ ['\n', '\r', 'N']) (rest : Spells body text) :
      Spells ('\\' :: c :: body) ('\\' :: c :: text)

/-! ### Escapes -/

theorem simpleEscape?_of_mem {letter c : Char} (h : (letter, c) ∈ namedEscapes) :
    simpleEscape? letter = some c := by
  have all : ∀ e ∈ namedEscapes, simpleEscape? e.1 = some e.2 := by decide
  exact all (letter, c) h

theorem mem_of_simpleEscape? {c x : Char} (h : simpleEscape? c = some x) :
    (c, x) ∈ namedEscapes := by
  unfold simpleEscape? at h
  split at h <;> cases h <;> decide

theorem simpleEscape?_eq_none {c : Char} (h : ∀ x, (c, x) ∉ namedEscapes) :
    simpleEscape? c = none :=
  Option.eq_none_iff_forall_ne_some.2 fun x hx => h x (mem_of_simpleEscape? hx)

theorem isDigitIn_eq_false {base : Nat} (hbase : base ≤ 16) {c : Char}
    (h : ∀ d < base, ¬Text.IsDigit c d) : Text.isDigitIn base c = false := by
  rw [← Bool.not_eq_true, Text.IsDigit.isDigitIn_iff hbase]
  rintro ⟨d, lt, digit⟩
  exact h d lt digit

/-- The first digits of a text where digits stand before what is none or before the limit. -/
theorem leadingDigits_append {base width : Nat} {digits rest : List Char}
    (hdigits : ∀ c ∈ digits, Text.isDigitIn base c = true) (hlength : digits.length ≤ width)
    (hrest : digits.length = width ∨ ∀ c ∈ rest.head?, Text.isDigitIn base c = false) :
    leadingDigits base width (digits ++ rest) = digits := by
  rw [leadingDigits, List.take_append, List.take_of_length_le hlength,
    List.takeWhile_append_of_pos hdigits]
  have none_left : (rest.take (width - digits.length)).takeWhile (Text.isDigitIn base) = [] := by
    obtain h | h := hrest
    · rw [h, Nat.sub_self, List.take_zero, List.takeWhile_nil]
    · cases rest with
      | nil => rw [List.take_nil, List.takeWhile_nil]
      | cons c rest =>
        cases width - digits.length with
        | zero => rfl
        | succ k =>
          rw [List.take_succ_cons, List.takeWhile_cons_of_neg]
          simp [h c rfl]
  rw [none_left, List.append_nil]

theorem hexEscape_append {letter c : Char} {width : Nat} {digits : List Char}
    (numeral : Text.Numeral 16 digits c.toNat) (length : digits.length = width)
    (hne : digits ≠ []) (rest : List Char) :
    hexEscape letter width (digits ++ rest) = ([c], digits.length + 1) := by
  have leading : leadingDigits 16 width (digits ++ rest) = digits :=
    leadingDigits_append (fun c mem => numeral.isDigitIn (by decide) mem)
      (Nat.le_of_eq length) (.inl length)
  rw [hexEscape, leading, if_pos length, numeral.number? hne, Option.bind_some, Text.scalar?_toNat]

theorem octalEscape_append {c : Char} {digits rest : List Char}
    (numeral : Text.Numeral 8 digits c.toNat) (hne : digits ≠ [])
    (ends : OctalEnds digits rest) : octalEscape (digits ++ rest) = ([c], digits.length) := by
  have inside : ∀ c ∈ digits, Text.isDigitIn 8 c = true :=
    fun c mem => numeral.isDigitIn (by decide) mem
  have leading : leadingDigits 8 3 (digits ++ rest) = digits := by
    obtain h | ⟨h, other⟩ := ends
    · exact leadingDigits_append inside (Nat.le_of_eq h) (.inl h)
    · exact leadingDigits_append inside (Nat.le_of_lt h)
        (.inr fun c mem => isDigitIn_eq_false (by decide) (other c mem))
  rw [octalEscape, leading, numeral.number? hne, Option.bind_some, Text.scalar?_toNat]
  rfl

/-- A character that is no line end takes the part of an escape that its letter says. -/
theorem escape_cons {c : Char} (hn : c ≠ '\n') (hr : c ≠ '\r') (s : List Char) :
    escape (c :: s) =
      match simpleEscape? c with
      | some x => ([x], 1)
      | none =>
        if Text.isDigitIn 8 c then octalEscape (c :: s)
        else if c = 'x' then hexEscape c 2 s
        else if c = 'u' then hexEscape c 4 s
        else if c = 'U' then hexEscape c 8 s
        else (['\\', c], 1) := by
  unfold escape
  split
  · rename_i h
    cases h
  · rename_i h
    exact absurd (List.cons.inj h).1 hn
  · rename_i h
    exact absurd (List.cons.inj h).1 hr
  · rename_i h
    exact absurd (List.cons.inj h).1 hr
  · rename_i h
    obtain ⟨rfl, rfl⟩ := List.cons.inj h
    rfl

theorem escape_named {letter c : Char} (h : (letter, c) ∈ namedEscapes) (s : List Char) :
    escape (letter :: s) = ([c], 1) := by
  have all : ∀ e ∈ namedEscapes, e.1 ≠ '\n' ∧ e.1 ≠ '\r' := by decide
  obtain ⟨hn, hr⟩ := all (letter, c) h
  rw [escape_cons hn hr, simpleEscape?_of_mem h]

theorem escape_hex {letter : Char} {width : Nat} (h : (letter, width) ∈ hexEscapes)
    (s : List Char) : escape (letter :: s) = hexEscape letter width s := by
  have all : ∀ e ∈ hexEscapes, e.1 ≠ '\n' ∧ e.1 ≠ '\r' ∧ simpleEscape? e.1 = none ∧
      Text.isDigitIn 8 e.1 = false ∧
      (e = ('x', 2) ∨ e = ('u', 4) ∨ e = ('U', 8)) := by decide
  obtain ⟨hn, hr, hsimple, hoctal, which⟩ := all (letter, width) h
  rw [escape_cons hn hr, hsimple]
  simp only [hoctal, Bool.false_eq_true, if_false]
  obtain h | h | h := which
  · cases h
    rfl
  · cases h
    rfl
  · cases h
    rfl

theorem escape_octal {c : Char} {d : Nat} (digit : Text.IsDigit c d) (lt : d < 8)
    (s : List Char) : escape (c :: s) = octalEscape (c :: s) := by
  have ne (other : Char) (h : ∀ d < 8, ¬Text.IsDigit other d) : c ≠ other := by
    rintro rfl
    exact h d lt digit
  have hn : c ≠ '\n' := ne '\n' (by decide)
  have hr : c ≠ '\r' := ne '\r' (by decide)
  have hsimple : simpleEscape? c = none := by
    have letters : ∀ e ∈ namedEscapes, ∀ d < 8, ¬Text.IsDigit e.1 d := by decide
    exact simpleEscape?_eq_none fun x mem => letters (c, x) mem d lt digit
  rw [escape_cons hn hr, hsimple]
  exact if_pos ((Text.IsDigit.isDigitIn_iff (by decide)).2 ⟨d, lt, digit⟩)

theorem ne_nil_of_mem_hexEscapes {letter : Char} {width : Nat} {digits : List Char}
    (h : (letter, width) ∈ hexEscapes) (length : digits.length = width) : digits ≠ [] := by
  have all : ∀ e ∈ hexEscapes, e.2 ≠ 0 := by decide
  rintro rfl
  exact all (letter, width) h length.symm

/-- An escape by number takes its letter and as many digits as that says. -/
theorem escape_hex_append {letter c : Char} {width : Nat} {digits : List Char}
    (h : (letter, width) ∈ hexEscapes) (numeral : Text.Numeral 16 digits c.toNat)
    (length : digits.length = width) (rest : List Char) :
    escape (letter :: digits ++ rest) = ([c], (letter :: digits).length) :=
  (escape_hex h _).trans
    (hexEscape_append numeral length (ne_nil_of_mem_hexEscapes h length) rest)

theorem escape_octal_append {c : Char} {digits rest : List Char}
    (numeral : Text.Numeral 8 digits c.toNat) (hne : digits ≠ [])
    (ends : OctalEnds digits rest) : escape (digits ++ rest) = ([c], digits.length) := by
  cases digits with
  | nil => exact absurd rfl hne
  | cons first digits =>
    obtain ⟨d, lt, digit⟩ := numeral.exists_digit List.mem_cons_self
    exact (escape_octal digit lt _).trans (octalEscape_append numeral hne ends)

theorem escape_other {c : Char} (named : ∀ x, (c, x) ∉ namedEscapes)
    (hex : ∀ width, (c, width) ∉ hexEscapes) (octal : ∀ d < 8, ¬Text.IsDigit c d)
    (hn : c ≠ '\n') (hr : c ≠ '\r') (s : List Char) : escape (c :: s) = (['\\', c], 1) := by
  have hx : c ≠ 'x' := fun h => hex 2 (h ▸ by decide)
  have hu : c ≠ 'u' := fun h => hex 4 (h ▸ by decide)
  have hU : c ≠ 'U' := fun h => hex 8 (h ▸ by decide)
  rw [escape_cons hn hr, simpleEscape?_eq_none named]
  simp [isDigitIn_eq_false (by decide) octal, hx, hu, hU]

theorem escape_carriageReturn {s : List Char} (h : s.head? ≠ some '\n') :
    escape ('\r' :: s) = ([], 1) := by
  cases s with
  | nil => rfl
  | cons c s =>
    rw [escape]
    rintro tail hs
    cases hs
    exact h rfl

/-! ### Bodies -/

theorem unescapeFrom_append (used s : List Char) :
    unescapeFrom used.length (used ++ s) = unescapeFrom 0 s := by
  induction used with
  | nil => rfl
  | cons c used ih =>
    rw [List.cons_append, List.length_cons, unescapeFrom]
    exact ih

theorem unescape_escape {used s out : List Char}
    (h : escape (used ++ s) = (out, used.length)) :
    unescape ('\\' :: (used ++ s)) = out ++ unescape s := by
  rw [unescape, unescapeFrom, if_pos rfl, h, unescapeFrom_append]
  rfl

theorem unescape_letter {c : Char} {s out : List Char} (h : escape (c :: s) = (out, 1)) :
    unescape ('\\' :: c :: s) = out ++ unescape s := by
  have one : escape ([c] ++ s) = (out, [c].length) := h
  exact unescape_escape one

theorem unescape_plain {c : Char} (h : c ≠ '\\') (s : List Char) :
    unescape (c :: s) = c :: unescape s := by
  rw [unescape, unescapeFrom, if_neg h]
  rfl

/-- The body of a literal is decoded to the text that it spells. -/
theorem Spells.unescape_eq {body text : List Char} (h : Spells body text) :
    unescape body = text := by
  induction h with
  | nil => rfl
  | plain h rest ih => rw [unescape_plain h, ih]
  | @named letter c body text h rest ih =>
    rw [unescape_letter (escape_named h body), ih]
    rfl
  | @hex letter c width digits body text h numeral length rest ih =>
    rw [← List.cons_append, unescape_escape (escape_hex_append h numeral length body), ih]
    rfl
  | octal numeral hne ends rest ih =>
    rw [unescape_escape (escape_octal_append numeral hne ends), ih]
    rfl
  | @lineFeed body text rest ih =>
    rw [unescape_letter rfl, ih]
    rfl
  | @carriageReturn body text h rest ih =>
    rw [unescape_letter (escape_carriageReturn h), ih]
    rfl
  | @lineEnd body text rest ih =>
    have one : escape (['\r', '\n'] ++ body) = ([], ['\r', '\n'].length) := rfl
    exact (unescape_escape one).trans ih
  | @backslash c body text named hex octal other rest ih =>
    obtain ⟨hn, hr, -⟩ : c ≠ '\n' ∧ c ≠ '\r' ∧ c ≠ 'N' := by simpa using other
    rw [unescape_letter (escape_other named hex octal hn hr body), ih]
    rfl

/-! ### Tokens -/

/-- A delimiter around a body: one quote of either kind, which the body then does not start with,
or three of them. -/
inductive Delimits : List Char → List Char → Prop where
  | single {q : Char} {body : List Char} (quote : isQuote q = true)
      (start : body.head? ≠ some q) : Delimits [q] body
  | triple {q : Char} {body : List Char} (quote : isQuote q = true) : Delimits [q, q, q] body

/-- A token spells a text: a plain one by the spelling in it, a raw one as it stands. -/
inductive TokenSpells : List Char → List Char → Prop where
  | plain {start d body text : List Char} (prefixed : start ∈ [[], ['u'], ['U']])
      (delimited : Delimits d body) (spells : Spells body text) :
      TokenSpells (start ++ (d ++ (body ++ d))) text
  | raw {start d body : List Char} (prefixed : start ∈ [['r'], ['R']])
      (delimited : Delimits d body) : TokenSpells (start ++ (d ++ (body ++ d))) body

/-- Tokens next to each other spell a text. -/
def TokensSpell (tokens : List (List Char)) (text : String) : Prop :=
  ∃ parts, List.Forall₂ TokenSpells tokens parts ∧ String.ofList parts.flatten = text

namespace Delimits

variable {d body : List Char}

theorem exists_quote (h : Delimits d body) : ∃ q rest, d = q :: rest ∧ isQuote q = true := by
  cases h with
  | single quote start => exact ⟨_, _, rfl, quote⟩
  | triple quote => exact ⟨_, _, rfl, quote⟩

theorem delimiter_eq (h : Delimits d body) : delimiter (d ++ (body ++ d)) = d := by
  cases h with
  | @single q body quote start =>
    refine if_neg fun ⟨size, three⟩ => ?_
    cases body with
    | nil => simp at three
    | cons c body =>
      have hc : c = q := by
        have := congrArg (·[1]?) three
        simpa using this
      exact start (by rw [hc]; rfl)
  | @triple q body quote =>
    have hq : q.utf8Size = 1 := by
      have : q = '\'' ∨ q = '"' := by simpa [isQuote] using quote
      obtain rfl | rfl := this
      · decide
      · decide
    have hsize : (String.ofList [q, q, q]).utf8ByteSize = 3 := by
      simp [String.ofList_cons, String.utf8ByteSize_append, hq]
    refine if_pos ⟨?_, rfl⟩
    rw [String.ofList_append, String.ofList_append, String.utf8ByteSize_append,
      String.utf8ByteSize_append, hsize]
    omega

theorem body?_eq (h : Delimits d body) : body? (d ++ (body ++ d)) = some body := by
  rw [body?, h.delimiter_eq, Text.afterStart?_append, Option.bind_some, Text.beforeEnd?_append]

end Delimits

/-- A literal is what stands before its first quote, and the rest. -/
theorem decodeLiteral?_append {start quoted : List Char} {q : Char} {rest : List Char}
    (hstart : start.all (!isQuote ·) = true) (hquoted : quoted = q :: rest)
    (quote : isQuote q = true) :
    decodeLiteral? (start ++ quoted) =
      if !(start.map Char.toLower).all (fun c => c = 'r' || c = 'u') then none
      else if (start.map Char.toLower).contains 'r' then body? quoted
      else (body? quoted).map unescape := by
  have before : (start ++ quoted).takeWhile (!isQuote ·) = start := by
    rw [List.takeWhile_append_of_pos (List.all_eq_true.1 hstart), hquoted,
      List.takeWhile_cons_of_neg (by simp [quote]), List.append_nil]
  have after : (start ++ quoted).dropWhile (!isQuote ·) = quoted := by
    rw [List.dropWhile_append_of_pos (List.all_eq_true.1 hstart), hquoted,
      List.dropWhile_cons_of_neg (by simp [quote])]
  rw [decodeLiteral?, before, after]
  simp [hquoted]

/-- Decoding a literal gives the text that it spells. -/
theorem TokenSpells.decodeLiteral?_eq {token text : List Char} (h : TokenSpells token text) :
    decodeLiteral? token = some text := by
  cases h with
  | @plain start d body text prefixed delimited spells =>
    obtain ⟨q, rest, hd, quote⟩ := delimited.exists_quote
    have all : ∀ start ∈ [[], ['u'], ['U']], start.all (!isQuote ·) = true ∧
        (start.map Char.toLower).all (fun c => c = 'r' || c = 'u') = true ∧
        (start.map Char.toLower).contains 'r' = false := by decide
    obtain ⟨hstart, hall, hraw⟩ := all start prefixed
    rw [decodeLiteral?_append hstart (by rw [hd]; rfl) quote, hall, hraw, delimited.body?_eq]
    exact congrArg some spells.unescape_eq
  | @raw start d body prefixed delimited =>
    obtain ⟨q, rest, hd, quote⟩ := delimited.exists_quote
    have all : ∀ start ∈ [['r'], ['R']], start.all (!isQuote ·) = true ∧
        (start.map Char.toLower).all (fun c => c = 'r' || c = 'u') = true ∧
        (start.map Char.toLower).contains 'r' = true := by decide
    obtain ⟨hstart, hall, hraw⟩ := all start prefixed
    rw [decodeLiteral?_append hstart (by rw [hd]; rfl) quote, hall, hraw, delimited.body?_eq]
    rfl

end HouseRules.Python
