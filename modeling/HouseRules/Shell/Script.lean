import HouseRules.Text.Pieces

/-! Shell scripts of simple commands: words with quotes and parameters, and redirections. -/

namespace HouseRules.Shell

/-- A parameter that a word refers to. -/
inductive Parameter where
  | argument (n : Nat)
  | allArguments
  | count
  | process
  | status
  | variable (name : String)
  deriving DecidableEq

/-- A part of a word. -/
inductive Part where
  | text (s : List Char)
  | parameter (p : Parameter)
  deriving DecidableEq

/-- A word is made of parts; one without any parts was written as empty quotes. -/
abbrev Word := List Part

/-- Where output goes or input comes from, other than usual. -/
inductive Redirection where
  | input (path : Word)
  | output (fromErrors : Bool) (append : Bool) (path : Word)
  /-- The output goes where the errors go. -/
  | outputToErrors
  /-- The errors go where the output goes. -/
  | errorsToOutput
  deriving DecidableEq

/-- A simple command. -/
structure Line where
  words : List Word
  redirections : List Redirection
  deriving DecidableEq

/-! ### Tokens -/

/-- A word, a redirection sign, or the end of a command. -/
inductive Token where
  | word (w : Word)
  | sign (s : String)
  | stop
  deriving DecidableEq

def isNameStart (c : Char) : Bool := c.isAlpha || c = '_'

def isNameChar (c : Char) : Bool := c.isAlphanum || c = '_'

/-- The parameter after a dollar sign, and how many characters it takes. -/
def parameter? : List Char → Option (Parameter × Nat)
  | '@' :: _ | '*' :: _ => some (.allArguments, 1)
  | '#' :: _ => some (.count, 1)
  | '$' :: _ => some (.process, 1)
  | '?' :: _ => some (.status, 1)
  | '\x7b' :: s =>
    let name := s.takeWhile isNameChar
    match s.drop name.length with
    | '\x7d' :: _ =>
      match (String.ofList name).toNat? with
      | some n => some (.argument n, name.length + 2)
      | none => some (.variable (String.ofList name), name.length + 2)
    | _ => none
  | c :: s =>
    if c.isDigit then some (.argument (c.toNat - '0'.toNat), 1)
    else if isNameStart c then
      let name := (c :: s).takeWhile isNameChar
      some (.variable (String.ofList name), name.length)
    else none
  | [] => none

/-- How the text at a point is quoted. -/
inductive Quoting where
  | bare
  | single
  | double
  deriving DecidableEq

/-- The tokens so far, and the word that is being read, if any, with its last part first. -/
structure Draft where
  tokens : List Token
  word : Option Word
  quoting : Quoting

namespace Draft

def add (d : Draft) (c : Char) : Draft :=
  { d with word := some (match d.word.getD [] with
    | .text s :: parts => .text (s ++ [c]) :: parts
    | parts => .text [c] :: parts) }

def refer (d : Draft) (p : Parameter) : Draft :=
  { d with word := some (.parameter p :: d.word.getD []) }

/-- The draft with the word at its end. -/
def close (d : Draft) : Draft :=
  match d.word with
  | none => d
  | some parts => { d with tokens := .word parts.reverse :: d.tokens, word := none }

def push (d : Draft) (t : Token) : Draft := { d.close with tokens := t :: d.close.tokens }

end Draft

/-- Reads on after the characters that a token has used up. -/
def tokensFrom : Nat → Draft → List Char → List Token
  | _, d, [] => (d.push .stop).tokens.reverse
  | used + 1, d, _ :: s => tokensFrom used d s
  | 0, d, c :: s =>
    let opened : Draft := { d with word := some (d.word.getD []) }
    match d.quoting with
    | .single =>
      if c = '\'' then tokensFrom 0 { d with quoting := .bare } s else tokensFrom 0 (d.add c) s
    | .double =>
      if c = '"' then tokensFrom 0 { d with quoting := .bare } s
      else if c = '$' then
        match parameter? s with
        | some (p, n) => tokensFrom n (d.refer p) s
        | none => tokensFrom 0 (d.add c) s
      else if c = '\\' then
        match s with
        | '\n' :: _ => tokensFrom 1 d s
        | x :: _ =>
          if x = '"' || x = '\\' || x = '$' || x = '`' then tokensFrom 1 (d.add x) s
          else tokensFrom 0 (d.add c) s
        | [] => tokensFrom 0 (d.add c) s
      else tokensFrom 0 (d.add c) s
    | .bare =>
      if c = '\'' then tokensFrom 0 { opened with quoting := .single } s
      else if c = '"' then tokensFrom 0 { opened with quoting := .double } s
      else if c = '\\' then
        match s with
        | '\n' :: _ => tokensFrom 1 d s
        | x :: _ => tokensFrom 1 (d.add x) s
        | [] => tokensFrom 0 d s
      else if c = ' ' || c = '\t' then tokensFrom 0 d.close s
      else if c = '\n' || c = ';' then tokensFrom 0 (d.push .stop) s
      else if c = '#' && d.word.isNone then
        tokensFrom ((s.takeWhile (· ≠ '\n')).length) d s
      else if c = '$' then
        match parameter? s with
        | some (p, n) => tokensFrom n (d.refer p) s
        | none => tokensFrom 0 (d.add c) s
      else if c = '<' then tokensFrom 0 (d.push (.sign "<")) s
      else if c = '>' then
        let errors := d.word = some [.text ['2']]
        let start : Draft :=
          if errors || d.word = some [.text ['1']] then { d with word := none } else d
        let mark := if errors then "2" else ""
        match s with
        | '>' :: _ => tokensFrom 1 (start.push (.sign (mark ++ ">>"))) s
        | '&' :: '2' :: _ => tokensFrom 2 (start.push (.sign ">&2")) s
        | '&' :: '1' :: _ => tokensFrom 2 (start.push (.sign (mark ++ ">&1"))) s
        | _ => tokensFrom 0 (start.push (.sign (mark ++ ">"))) s
      else tokensFrom 0 (d.add c) s

/-! ### Commands -/

/-- The commands that tokens spell, with the current one so far. -/
def linesFrom (words : List Word) (redirections : List Redirection) : List Token → List Line
  | [] => []
  | .stop :: rest =>
    if words.isEmpty && redirections.isEmpty then linesFrom [] [] rest
    else ⟨words.reverse, redirections.reverse⟩ :: linesFrom [] [] rest
  | .word w :: rest => linesFrom (w :: words) redirections rest
  | .sign ">&2" :: rest => linesFrom words (.outputToErrors :: redirections) rest
  | .sign "2>&1" :: rest => linesFrom words (.errorsToOutput :: redirections) rest
  | .sign "<" :: .word w :: rest => linesFrom words (.input w :: redirections) rest
  | .sign s :: .word w :: rest =>
    linesFrom words (.output (s.startsWith "2") (s.endsWith ">>") w :: redirections) rest
  | .sign _ :: rest => linesFrom words redirections rest

/-- The commands of a script. -/
def parse (script : String) : List Line :=
  linesFrom [] [] (tokensFrom 0 ⟨[], none, .bare⟩ script.toList)

end HouseRules.Shell
