import HouseRules.Rule.Listing
import HouseRules.Workspace

/-! The command line: reading its arguments, and running what they ask for. -/

namespace HouseRules

namespace CommandLine

/-! ### Arguments -/

inductive Verb where
  | list
  | apply
  | update
  deriving DecidableEq

def Verb.parse? (word : String) : Option Verb :=
  match word with
  | "list" => some .list
  | "apply" => some .apply
  | "update" => some .update
  | _ => none

/-- What is to be done, and for which project. -/
structure Request where
  file : Option String
  projectDir : Option String
  verb : Verb
  deriving DecidableEq

/-- What arguments ask for. -/
inductive Parsed where
  | request (r : Request)
  | version
  | help
  | wrong
  deriving DecidableEq

/-- An option that takes a path. -/
inductive PathOption where
  | file
  | projectDir
  deriving DecidableEq

namespace PathOption

/-- The option of an argument, with the path if that is in the same argument. -/
def parse? (argument : String) : Option (PathOption × Option String) :=
  let joined (start : String) (o : PathOption) : Option (PathOption × Option String) :=
    (Text.dropStart? start argument).map fun rest => (o, some rest)
  match argument with
  | "-c" | "--config" => some (.file, none)
  | "-p" | "--project-dir" => some (.projectDir, none)
  | _ =>
    (joined "--config=" .file).or <| (joined "--project-dir=" .projectDir).or <|
      (joined "-c=" .file).or <| (joined "-p=" .projectDir).or <|
      (joined "-c" .file).or (joined "-p" .projectDir)

end PathOption

/-- Whether an argument can be the path of an option before it. -/
def isPathArgument (a : String) : Bool := a = "-" || !a.startsWith "-"

namespace Request

/-- The request with the path of an option. An option may be given once, and a path must not be
empty. -/
def set (r : Request) (o : PathOption) (path : String) : Option Request :=
  if path.isEmpty then none
  else match o with
    | .file => if r.file.isNone then some { r with file := some path } else none
    | .projectDir =>
      if r.projectDir.isNone then some { r with projectDir := some path } else none

end Request

/-- Reads the arguments after those that gave the request so far. Options stand before the
verb. -/
def parseFrom (r : Request) : List String → Parsed
  | [] => .request r
  | a :: rest =>
    if a = "-V" || a = "--version" then .version
    else if a = "-h" || a = "--help" then .help
    else match PathOption.parse? a with
      | some (o, some path) =>
        match r.set o path with
        | some r => parseFrom r rest
        | none => .wrong
      | some (o, none) =>
        match rest with
        | path :: rest =>
          if isPathArgument path then
            match r.set o path with
            | some r => parseFrom r rest
            | none => .wrong
          else .wrong
        | [] => .wrong
      | none =>
        match Verb.parse? a, rest with
        | some verb, [] => .request { r with verb }
        | some _, more :: _ => if more = "-h" || more = "--help" then .help else .wrong
        | none, [] => if a = "help" then .help else .wrong
        | none, verb :: _ =>
          if a = "help" && (verb = "help" || (Verb.parse? verb).isSome) then .help else .wrong

/-- Reads all arguments. Without a verb the rules are listed. -/
def parse (arguments : List String) : Parsed := parseFrom ⟨none, none, .list⟩ arguments

/-! ### Running -/

/-- Said when no source is configured. -/
def noSources : String :=
  "No rule sources configured. Add `source = [...]` under [rules] in rulebook.toml."

/-- Said when sources are configured but no rule was found. -/
def noRules : String :=
  "No rules found. Run `rulebook update` to sync the configured rule sources."

def versionText : String := "rulebook 0.1.0"

/-- Writes a text to the standard output. -/
def print (text : String) : Action World Unit :=
  modify fun w => { w with output := w.output ++ Text.bytesOf text }

def printLine (text : String) : Action World Unit := print (text ++ "\n")

/-- Lists the rules. -/
def runList (s : Workspace) : Action World Unit := do
  let rules ← s.list (← get).tree
  if rules.isEmpty then printLine noRules else print (Listing.text rules)

/-- Applies the rules. -/
def runApply (s : Workspace) (launch : Launcher) : Action World Unit := do
  match ← s.apply launch with
  | some report =>
    printLine (Text.decimal report.executedCount ++ " rule(s) passed, " ++
      Text.decimal report.skipped ++ " excluded")
  | none => printLine noRules

/-- Does what a request asks for. -/
def perform (r : Request) (launch : Launcher) : Action World Unit := do
  let w ← get
  let s ← Workspace.load r.file (r.projectDir.getD (FileTree.textOf w.tree.cwd)) w
  if s.sources.isEmpty then printLine noSources
  else match r.verb with
    | .list => runList s
    | .apply => runApply s launch
    | .update => s.update launch

/-- Runs the program with arguments. The result is its exit status: 1 for an error and 2 for
arguments that make no sense. -/
def run (launch : Launcher) (arguments : List String) (w : World) :
    Nat × Option Error × World :=
  match parse arguments with
  | .wrong => (2, none, w)
  | .help => (0, none, w)
  | .version => (0, none, ((printLine versionText).run w).2)
  | .request r =>
    match (perform r launch).run w with
    | (.ok _, w) => (0, none, w)
    | (.error e, w) => (1, some e, w)

end CommandLine

end HouseRules
