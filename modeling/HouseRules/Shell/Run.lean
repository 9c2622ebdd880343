import HouseRules.Command
import HouseRules.Shell.Script
import HouseRules.Text.Utf8

/-! Running shell scripts in a world. -/

namespace HouseRules.Shell

/-- A script that runs: its arguments from its own name on, what is left of its input, what it
wrote to its standard error, and the status of its last command. -/
structure Process where
  world : World
  arguments : List String
  input : List UInt8
  errors : List UInt8
  status : Nat
  isQuiet : Bool
  limit : Option Nat
  started : Nat

/-- A script goes on, or it has come to an end. -/
inductive Step where
  | goesOn (p : Process)
  | ended (ending : Ending) (p : Process)
  | timedOut (p : Process)

/-! ### Words -/

namespace Process

/-- The text of a parameter. -/
def parameterText (p : Process) : Parameter → String
  | .argument n => p.arguments.getD n ""
  | .allArguments => Text.joinWith " " p.arguments.tail
  | .count => Text.decimal p.arguments.tail.length
  | .process => "$$"
  | .status => Text.decimal p.status
  | .variable name => (p.world.lookup? name).getD ""

/-- The text of a word. -/
def wordText (p : Process) (w : Word) : String :=
  String.join (w.map fun
    | .text s => String.ofList s
    | .parameter q => p.parameterText q)

/-- The texts that a word stands for: one, unless it is all arguments. -/
def expand (p : Process) (w : Word) : List String :=
  if w = [.parameter .allArguments] then p.arguments.tail else [p.wordText w]

/-! ### Output -/

/-- Adds to what is shown, unless nothing of this process is. -/
def reveal (p : Process) (bytes : List UInt8) : Process :=
  if p.isQuiet then p else { p with world := { p.world with output := p.world.output ++ bytes } }

def complain (p : Process) (bytes : List UInt8) : Process := { p with errors := p.errors ++ bytes }

def withTree (p : Process) (tree : FileTree) : Process :=
  { p with world := { p.world with tree } }

/-- Adds to a file that is there. -/
def addTo (p : Process) (path : String) (bytes : List UInt8) : Process :=
  match p.world.tree.write? path ((p.world.tree.read? path).getD [] ++ bytes) with
  | some tree => p.withTree tree
  | none => p

/-- Where output goes. -/
inductive Sink where
  | shown
  | errors
  | file (path : String)
  | nowhere

def send (p : Process) (bytes : List UInt8) : Sink → Process
  | .shown => p.reveal bytes
  | .errors => p.complain bytes
  | .file path => p.addTo path bytes
  | .nowhere => p

/-! ### Redirections -/

/-- Where a command reads and writes. -/
structure Streams where
  input : Option (List UInt8)
  output : Sink
  errors : Sink

/-- Opens a file for output: empty, unless it is to be added to. -/
def openFile (p : Process) (append : Bool) (path : String) : Option (Process × Sink) :=
  if path = "/dev/null" then some (p, .nowhere)
  else
    let content := if append then (p.world.tree.read? path).getD [] else []
    (p.world.tree.write? path content).map fun tree => (p.withTree tree, .file path)

/-- The streams of a command, with the files opened; nothing if one cannot be. -/
def redirect (p : Process) : List Redirection → Streams → Option (Process × Streams)
  | [], s => some (p, s)
  | .input w :: rest, s =>
    let path := p.wordText w
    if path = "/dev/null" then p.redirect rest { s with input := some [] }
    else match p.world.tree.read? path with
      | some bytes => p.redirect rest { s with input := some bytes }
      | none => none
  | .output fromErrors append w :: rest, s =>
    match p.openFile append (p.wordText w) with
    | none => none
    | some (p, sink) =>
      p.redirect rest (if fromErrors then { s with errors := sink } else { s with output := sink })
  | .outputToErrors :: rest, s => p.redirect rest { s with output := s.errors }
  | .errorsToOutput :: rest, s => p.redirect rest { s with errors := s.output }

end Process

/-! ### Formats -/

/-- The character of an escape in a format or an echoed text, and how many characters it takes
after the backslash. -/
def formatEscape : List Char → Option (Char × Nat)
  | 'n' :: _ => some ('\n', 1)
  | 't' :: _ => some ('\t', 1)
  | 'r' :: _ => some ('\r', 1)
  | 'a' :: _ => some ('\x07', 1)
  | 'b' :: _ => some ('\x08', 1)
  | 'f' :: _ => some ('\x0c', 1)
  | 'v' :: _ => some ('\x0b', 1)
  | '\\' :: _ => some ('\\', 1)
  | '"' :: _ => some ('"', 1)
  | s =>
    let digits := (s.take 3).takeWhile fun c => '0' ≤ c && c ≤ '7'
    if digits.isEmpty then none
    else ((Text.number? 8 digits).bind Text.scalar?).map fun c => (c, digits.length)

/-- A text with its escapes replaced, after the characters that one has used up. -/
def withEscapes : Nat → List Char → List Char
  | _, [] => []
  | used + 1, _ :: s => withEscapes used s
  | 0, '\\' :: s =>
    match formatEscape s with
    | some (c, n) => c :: withEscapes n s
    | none => '\\' :: withEscapes 0 s
  | 0, c :: s => c :: withEscapes 0 s

/-- One pass over a format: the text, and the arguments that it has not used. -/
def formatOnce : Nat → List String → List Char → List Char × List String
  | _, args, [] => ([], args)
  | used + 1, args, _ :: s => formatOnce used args s
  | 0, args, '\\' :: s =>
    match formatEscape s with
    | some (c, n) =>
      let (t, args) := formatOnce n args s
      (c :: t, args)
    | none =>
      let (t, args) := formatOnce 0 args s
      ('\\' :: t, args)
  | 0, args, '%' :: '%' :: s =>
    let (t, args) := formatOnce 1 args ('%' :: s)
    ('%' :: t, args)
  | 0, args, '%' :: c :: s =>
    if c = 's' || c = 'd' then
      let (t, rest) := formatOnce 1 args.tail (c :: s)
      ((args.headD (if c = 'd' then "0" else "")).toList ++ t, rest)
    else
      let (t, args) := formatOnce 0 args (c :: s)
      ('%' :: t, args)
  | 0, args, c :: s =>
    let (t, args) := formatOnce 0 args s
    (c :: t, args)

/-- A format used again until there are no arguments left. -/
def format : Nat → List String → List Char → List Char
  | 0, _, _ => []
  | fuel + 1, args, f =>
    let (t, rest) := formatOnce 0 args f
    if rest.isEmpty || rest.length = args.length then t else t ++ format fuel rest f

/-! ### Commands -/

/-- What a command did: the process after it, its output, its complaints and its status. -/
structure Done where
  process : Process
  output : List UInt8
  errors : List UInt8
  status : Nat

namespace Process

def done (p : Process) (status : Nat) : Done := ⟨p, [], [], status⟩

/-- A command that failed with a complaint. -/
def failed (p : Process) (complaint : String) : Done :=
  ⟨p, [], Text.bytesOf (complaint ++ "\n"), 1⟩

/-- Whether an argument is an option. -/
def isOption (a : String) : Bool := a.startsWith "-" && a ≠ "-"

/-- A step for each of several paths, in order. -/
def forEach (p : Process) (paths : List String) (f : FileTree → String → Option FileTree) : Done :=
  paths.foldl (fun d path =>
    match f d.process.world.tree path with
    | some tree => { d with process := d.process.withTree tree }
    | none => { d with status := 1, errors := d.errors ++ Text.bytesOf (path ++ ": failed\n") })
    (p.done 0)

/-- Shows files, or the input when none is named. -/
def cat (p : Process) (input : Option (List UInt8)) (paths : List String) : Done :=
  if paths.isEmpty then
    match input with
    | some bytes => ⟨p, bytes, [], 0⟩
    | none => ⟨{ p with input := [] }, p.input, [], 0⟩
  else
    paths.foldl (fun d path =>
      if path = "/dev/null" then d
      else match p.world.tree.read? path with
        | some bytes => { d with output := d.output ++ bytes }
        | none =>
          let complaint := "cat: " ++ path ++ ": No such file or directory\n"
          { d with status := 1, errors := d.errors ++ Text.bytesOf complaint })
      (p.done 0)

/-- Sets whether a file can be executed. -/
def setMode (mode : String) (t : FileTree) (path : String) : Option FileTree :=
  match t.locate true path with
  | none => none
  | some l =>
    match t.get? l with
    | some (.file content executable) =>
      let executable := match mode with
        | "+x" | "a+x" | "u+x" | "755" | "0755" | "700" | "0700" | "775" | "777" => true
        | "-x" | "a-x" | "u-x" | "644" | "0644" | "600" | "0600" => false
        | _ => executable
      some (t.set l (.file content executable))
    | some _ => some t
    | none => none

/-- Removes a file or a link, or with `recursive` also a directory. -/
def removeEntry (recursive : Bool) (t : FileTree) (path : String) : Option FileTree :=
  match t.locate false path with
  | none => none
  | some l =>
    match t.get? l with
    | some .directory => if recursive then some (t.erase l) else none
    | some _ => some (t.erase l)
    | none => none

/-- Runs a command that neither ends the script nor waits. -/
def perform (p : Process) (input : Option (List UInt8)) (name : String) (args : List String) :
    Done :=
  let paths := args.filter (!isOption ·)
  let has (letter : Char) : Bool := args.any fun a => isOption a && a.toList.contains letter
  match name with
  | "cat" => p.cat input paths
  | "echo" =>
    let (words, ending) := match args with
      | "-n" :: rest => (rest, "")
      | rest => (rest, "\n")
    let text := String.ofList (withEscapes 0 (Text.joinWith " " words).toList)
    ⟨p, Text.bytesOf (text ++ ending), [], 0⟩
  | "printf" =>
    match args with
    | f :: rest =>
      ⟨p, Text.bytesOf (String.ofList (format (rest.length + 1) rest f.toList)), [], 0⟩
    | [] => p.failed "printf: usage"
  | "mkdir" =>
    p.forEach paths fun t path =>
      if has 'p' then t.ensureDirectory path else t.makeDirectory? path
  | "chmod" => p.forEach paths.tail (setMode (paths.headD ""))
  | "touch" => p.forEach paths fun t path => t.write? path ((t.read? path).getD [])
  | "rm" =>
    p.forEach paths fun t path =>
      match removeEntry (has 'r' || has 'R') t path with
      | some t => some t
      | none => if has 'f' then some t else none
  | "true" | ":" => p.done 0
  | "false" => p.done 1
  | _ => ⟨p, [], Text.bytesOf ("sh: " ++ name ++ ": not found\n"), 127⟩

/-- The number of a signal that an option names. -/
def signal? (a : String) : Option Nat :=
  let name := a.toList.drop 1
  match Text.number? 10 name with
  | some n => some n
  | none =>
    (List.range 16).find? fun n =>
      match Ending.signalName? n with
      | some s => s = String.ofList name || s = "SIG" ++ String.ofList name
      | none => false

/-- The status that a text gives to `exit`. -/
def statusOf (p : Process) (args : List String) : Nat :=
  match args with
  | a :: _ => ((Text.number? 10 a.toList).getD 2) % 256
  | [] => p.status

/-- Waits. A time limit may end the script meanwhile. -/
def wait (p : Process) (seconds : Nat) : Step :=
  let finish := p.world.clock + seconds
  let moved (clock : Nat) : Process := { p with status := 0, world := { p.world with clock } }
  match p.limit with
  | some limit =>
    if p.world.slow || p.started + limit ≤ finish then .timedOut (moved (p.started + limit))
    else .goesOn (moved finish)
  | none => .goesOn (moved finish)

/-- Runs a command with its streams. -/
def execute (p : Process) (s : Streams) (name : String) (args : List String) : Step :=
  match name, args with
  | "exit", _ => .ended (.exited (p.statusOf args)) p
  | "kill", [a, "$$"] =>
    match signal? a with
    | some n => .ended (.killed n) p
    | none => .goesOn { p with status := 2 }
  | "kill", ["$$"] => .ended (.killed 15) p
  | "sleep", a :: _ => p.wait ((Text.number? 10 a.toList).getD 0)
  | _, _ =>
    let d := p.perform s.input name args
    let p := (d.process.send d.output s.output).send d.errors s.errors
    .goesOn { p with status := d.status }

/-- Runs one line of a script. -/
def runLine (p : Process) (line : Line) : Step :=
  match p.redirect line.redirections ⟨none, .shown, .errors⟩ with
  | none => .goesOn { p.complain (Text.bytesOf "sh: cannot open file\n") with status := 2 }
  | some (p, streams) =>
    match line.words.flatMap p.expand with
    | [] => .goesOn { p with status := 0 }
    | "exec" :: name :: args =>
      match p.execute streams name args with
      | .goesOn p => .ended (.exited p.status) p
      | step => step
    | name :: args => p.execute streams name args

/-- Runs a script to its end. -/
def run (p : Process) : List Line → Step
  | [] => .ended (.exited p.status) p
  | line :: rest =>
    match p.runLine line with
    | .goesOn p => run p rest
    | step => step

end Process

/-! ### Programs -/

/-- The script that a program path leads to: an executable file that starts with the line of the
shell. -/
def script? (w : World) (path : String) : Option String :=
  match w.tree.find? path with
  | some (.file content true) =>
    let text := Text.decodeLossy content
    if text.startsWith "#!/bin/sh" then some text else none
  | _ => none

/-- The script of a program: at its path, or for a plain name in one of the directories that are
searched. -/
def program? (w : World) (program : String) : Option String :=
  if program.toList.contains '/' then script? w program
  else
    let dirs := Text.splitAt ':' ((w.lookup? "PATH").getD "")
    dirs.findSome? fun dir => script? w (Path.join dir program)

/-- Starts scripts and waits for them. -/
def launch : Launcher := fun c w =>
  match program? w c.program with
  | none => (.cannotStart, w)
  | some text =>
    let p : Process :=
      ⟨w, c.program :: c.arguments, c.input, [], 0, c.isQuiet, c.limit, w.clock⟩
    match p.run (parse text) with
    | .goesOn p => (.ended (.exited p.status) (Text.decodeLossy p.errors), p.world)
    | .ended ending p => (.ended ending (Text.decodeLossy p.errors), p.world)
    | .timedOut p => (.timedOut, p.world)

end HouseRules.Shell
