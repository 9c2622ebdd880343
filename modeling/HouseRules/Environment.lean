import HouseRules.Batch.Basic
import HouseRules.Cache
import HouseRules.Command
import HouseRules.Text.Blank
import HouseRules.Text.Utf8

/-! The environment in which rules run: a directory with an interpreter of its own. It is
created with what the sources need; when that fails, what there is of it is removed. -/

namespace HouseRules

/-- An environment at its place, the interpreter that creates it, the time that one rule may
take in seconds, and what starts commands in a state that holds the world. -/
structure Environment (σ : Type := World) where
  layout : Layout
  python : String
  timeout : Option Nat
  launch : Launcher σ

namespace Environment

open HasWorld (world withWorld)

/-- The program that the interpreter runs for each rule. It reads the call from its standard
input, so nothing from a rule becomes program text. -/
def bootstrap : String :=
  "import importlib\n" ++
  "import json\n" ++
  "import sys\n" ++
  "\n" ++
  "call = json.load(sys.stdin)\n" ++
  "sys.path.insert(0, call[\"module_dir\"])\n" ++
  "module = importlib.import_module(call[\"module\"])\n" ++
  "getattr(module, call[\"function\"])(**call[\"kwargs\"])\n"

variable {σ : Type} (e : Environment σ)

/-! ### Commands -/

/-- The command that creates the environment. -/
def creation : Command :=
  ⟨e.python, ["-m", "venv", e.layout.environmentDir], [], true, none⟩

/-- The command that installs what a source needs. -/
def installation (source : String) : Command :=
  ⟨e.layout.interpreter, ["-m", "pip", "install", "--quiet", "-r", e.layout.requirements source],
    [], true, none⟩

/-- The command that runs a call. -/
def ruleCommand (i : Invocation) : Command :=
  ⟨e.layout.interpreter, ["-c", bootstrap], Text.bytesOf (String.ofList i.payload), false,
    e.timeout⟩

/-! ### Steps -/

variable [HasWorld σ]

/-- Whether the directory of the environment is there. -/
def isProvisioned (s : σ) : Bool := (world s).tree.isDirectory e.layout.environmentDir

/-- Starts a command and waits for it. -/
def start (c : Command) : Action σ CommandResult := do
  let (result, s) := e.launch c (← get)
  set s
  return result

/-- Runs a command of which only a failure shows, under a name. -/
def runQuietly (name : String) (c : Command) : Action σ Unit := do
  match ← e.start c with
  | .cannotStart => throw (.provisioning ("Failed to run " ++ name) none)
  | .timedOut => throw (.provisioning ("Failed to run " ++ name) none)
  | .ended ending errors =>
    if !ending.isSuccess then
      throw (.provisioning
        (name ++ " failed (" ++ ending.text ++ "): " ++ Text.trimmed errors) none)

/-- Removes what there is of the environment. -/
def discard : Action σ Unit := modify fun s =>
  let dir := e.layout.environmentDir
  let w := world s
  if w.tree.exists? dir then
    match w.tree.removeDirectory? dir with
    | some tree => withWorld { w with tree } s
    | none => s
  else s

/-- A step after whose failure the environment is removed. -/
def orDiscard (step : Action σ Unit) : Action σ Unit :=
  tryCatch step fun error => do
    e.discard
    throw error

/-- Creates the environment unless it is there, and says whether it did. -/
def ensure : Action σ Bool := do
  if e.isProvisioned (← get) then return false
  e.orDiscard (e.runQuietly (e.python ++ " -m venv") e.creation)
  return true

/-- Installs what a source needs, if a list of that is stored for it. -/
def installRequirements (source : String) : Action σ Unit := do
  if (world (← get)).tree.isFile (e.layout.requirements source) then
    e.runQuietly "pip install" (e.installation source)

/-- Creates the environment, unless it is there, with what the sources need. -/
def provision (sources : List String) : Action σ Unit := do
  if ← e.ensure then e.orDiscard (sources.forM e.installRequirements)

/-- Installs what one source needs, in an environment that is created unless it is there. -/
def install (source : String) : Action σ Unit := do
  if ← e.ensure then e.orDiscard (e.installRequirements source)
  else e.installRequirements source

/-- Runs one call in a process of its own. -/
def invoke (i : Invocation) : Action σ Unit := do
  match ← e.start (e.ruleCommand i) with
  | .cannotStart => throw (.execution i.ruleId "failed to start interpreter")
  | .timedOut => throw (.timeout i.ruleId (e.timeout.getD 0))
  | .ended ending _ =>
    if !ending.isSuccess then throw (.execution i.ruleId ("interpreter " ++ ending.text))

/-- The environment as a runtime for batches of rules. -/
def runtime : Runtime σ where
  provision := e.provision
  install := e.install
  invoke := e.invoke
  now s := (world s).clock * nanosecondsPerSecond

end Environment

end HouseRules
