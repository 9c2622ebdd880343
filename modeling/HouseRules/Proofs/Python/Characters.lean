import HouseRules.Proofs.Python.Spelling

/-! Literals that spell a text one character after the other. Each character may be spelled as it
is or by any of its escapes, with line ends between the spellings that do not count, and between
delimiters whose quote is only ever escaped. Decoding gives the text back, whatever was chosen. -/

namespace HouseRules.Python

/-- The ways to spell a character: as it is, by a letter, or by its code in as many digits as the
letter says, or in three octal ones. -/
inductive SpellsChar : List Char → Char → Prop where
  | self {c : Char} (h : c ≠ '\\') : SpellsChar [c] c
  | named {letter c : Char} (h : (letter, c) ∈ namedEscapes) : SpellsChar ['\\', letter] c
  | hex {letter c : Char} {width : Nat} {digits : List Char} (h : (letter, width) ∈ hexEscapes)
      (numeral : Text.Numeral 16 digits c.toNat) (length : digits.length = width) :
      SpellsChar ('\\' :: letter :: digits) c
  | octal {c : Char} {digits : List Char} (numeral : Text.Numeral 8 digits c.toNat)
      (length : digits.length = 3) : SpellsChar ('\\' :: digits) c

/-- A body spells a text character by character, and never the quote as it is. A backslash before
a line end continues the line. -/
inductive SpellsEach (quote : Char) : List Char → List Char → Prop where
  | nil : SpellsEach quote [] []
  | char {spelling body text : List Char} {c : Char} (spells : SpellsChar spelling c)
      (escaped : spelling ≠ [quote]) (rest : SpellsEach quote body text) :
      SpellsEach quote (spelling ++ body) (c :: text)
  | continued {lineEnd body text : List Char} (h : lineEnd ∈ [['\n'], ['\r', '\n']])
      (rest : SpellsEach quote body text) : SpellsEach quote ('\\' :: (lineEnd ++ body)) text

variable {quote : Char} {body text : List Char}

theorem SpellsChar.spells {spelling : List Char} {c : Char} (h : SpellsChar spelling c)
    (rest : Spells body text) : Spells (spelling ++ body) (c :: text) := by
  cases h with
  | self ne => exact .plain ne rest
  | named mem => exact .named mem rest
  | hex mem numeral length => exact .hex mem numeral length rest
  | octal numeral length =>
    refine .octal numeral ?_ (.inl length) rest
    rintro rfl
    cases length

theorem SpellsEach.spells (h : SpellsEach quote body text) : Spells body text := by
  induction h with
  | nil => exact .nil
  | char spells escaped rest ih => exact spells.spells ih
  | continued mem rest ih =>
    obtain rfl | rfl : _ = ['\n'] ∨ _ = ['\r', '\n'] := by simpa using mem
    · exact .lineFeed ih
    · exact .lineEnd ih

/-- A body in which the quote is escaped does not start with it. -/
theorem SpellsEach.head?_ne (h : SpellsEach quote body text) (hquote : isQuote quote = true) :
    body.head? ≠ some quote := by
  have backslash : some '\\' ≠ some quote := by
    rintro same
    cases same
    cases hquote
  cases h with
  | nil => simp
  | char spells escaped rest =>
    cases spells with
    | self ne =>
      intro same
      cases same
      exact escaped rfl
    | named | hex | octal => exact backslash
  | continued => exact backslash

theorem delimits_of_head?_ne {delimiter : List Char} (hquote : isQuote quote = true)
    (delimiting : delimiter ∈ [[quote], [quote, quote, quote]]) (h : body.head? ≠ some quote) :
    Delimits delimiter body := by
  obtain rfl | rfl : delimiter = [quote] ∨ delimiter = [quote, quote, quote] := by
    simpa using delimiting
  · exact .single hquote h
  · exact .triple hquote

/-- A literal denotes the text that its characters are spelled from, and a raw one its body. -/
theorem decodeLiteral?_of_spellings {delimiter : List Char} (hquote : isQuote quote = true)
    (delimiting : delimiter ∈ [[quote], [quote, quote, quote]]) :
    (∀ start ∈ [[], ['u'], ['U']], ∀ body text, SpellsEach quote body text →
      decodeLiteral? (start ++ (delimiter ++ (body ++ delimiter))) = some text) ∧
    ∀ start ∈ [['r'], ['R']], ∀ body, quote ∉ body →
      decodeLiteral? (start ++ (delimiter ++ (body ++ delimiter))) = some body := by
  constructor
  · intro start prefixed body text spells
    have delimits := delimits_of_head?_ne hquote delimiting (spells.head?_ne hquote)
    exact (TokenSpells.plain prefixed delimits spells.spells).decodeLiteral?_eq
  · intro start prefixed body absent
    have delimits := delimits_of_head?_ne hquote delimiting
      fun same => absent (List.mem_of_head? same)
    exact (TokenSpells.raw prefixed delimits).decodeLiteral?_eq

/-- A digit after an octal escape, on the next line, is a character of its own. -/
theorem decodeLiteral?_of_spellings_octal :
    isQuote '\'' = true ∧ ['\''] ∈ [['\''], ['\'', '\'', '\'']] ∧
    SpellsEach '\'' "\\u00E9\\101\\\r\n1".toList "éA1".toList ∧
    decodeLiteral? "U'\\u00E9\\101\\\r\n1'".toList = some "éA1".toList := by
  have accented : SpellsChar "\\u00E9".toList 'é' :=
    .hex (by decide) (Text.Numeral.of_foldlM (by decide) (by decide)) rfl
  have letter : SpellsChar "\\101".toList 'A' :=
    .octal (Text.Numeral.of_foldlM (by decide) (by decide)) rfl
  have ending : ['\r', '\n'] ∈ [['\n'], ['\r', '\n']] := by decide
  have body : SpellsEach '\'' "\\u00E9\\101\\\r\n1".toList "éA1".toList :=
    .char accented (by decide) (.char letter (by decide)
      (.continued ending (.char (.self (by decide)) (by decide) .nil)))
  have delimiting : ['\''] ∈ [['\''], ['\'', '\'', '\'']] := by decide
  have whole : "U'\\u00E9\\101\\\r\n1'".toList =
      ['U'] ++ (['\''] ++ ("\\u00E9\\101\\\r\n1".toList ++ ['\''])) := by decide
  rw [whole]
  exact ⟨rfl, delimiting, body,
    (decodeLiteral?_of_spellings rfl delimiting).1 ['U'] (by decide) _ _ body⟩

end HouseRules.Python
