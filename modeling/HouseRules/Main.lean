import HouseRules.CommandLine
import HouseRules.Shell.Run

/-! The program: it takes a picture of the files that a command may touch, runs the command on
that, and makes the changes that the command made. -/

open HouseRules

namespace HouseRules.Program

/-- The entry of a file, or nothing if it cannot be read. Scripts count as executable. -/
def fileEntry (path : String) : IO (Option Entry) :=
  try
    let content := (← IO.FS.readBinFile path).toList
    return some (.file content (content.take 2 = [35, 33]))
  catch _ => return none

/-- Adds a file to a picture, if it is there. -/
def addFile (t : FileTree) (path : String) : IO FileTree := do
  match ← fileEntry path with
  | some entry => return (t.put? path entry).getD t
  | none => return t

/-- Adds what stands at a directory entry to a picture, with everything below it. -/
partial def addEntry (t : FileTree) (d : IO.FS.DirEntry) : IO FileTree := do
  let path := d.path.toString
  match (← d.path.symlinkMetadata).type with
  | .dir =>
    let mut t := (t.ensureDirectory path).getD t
    for inner in ← d.path.readDir do
      t ← addEntry t inner
    return t
  | .symlink =>
    try
      let target := (← IO.FS.realPath d.path).toString
      let t := (t.put? path (.link target)).getD t
      if ← d.path.isDir then return (t.ensureDirectory target).getD t
      else addFile t target
    catch _ => return t
  | _ => addFile t path

/-- Adds a directory to a picture, if it is there, with everything below it. -/
def addDirectory (t : FileTree) (path : String) : IO FileTree := do
  try
    let real ← IO.FS.realPath path
    let entries ← real.readDir
    let mut t := (t.ensureDirectory real.toString).getD t
    if real.toString ≠ path then
      t := (t.put? path (.link real.toString)).getD t
    for d in entries do
      t ← addEntry t d
    return t
  catch _ => return t

/-- The variables of the environment. -/
def environment : IO (List (String × String)) := do
  let names := ["HOME", "XDG_CONFIG_HOME", "PATH"]
  let all ← try
      let text := Text.decodeLossy (← IO.FS.readBinFile "/proc/self/environ").toList
      pure ((Text.splitAt '\x00' text).filterMap fun entry =>
        match Text.splitAt '=' entry with
        | name :: value => if name.isEmpty then none else some (name, Text.joinWith "=" value)
        | [] => none)
    catch _ => pure []
  if all.isEmpty then
    names.filterMapM fun name => return (← IO.getEnv name).map fun value => (name, value)
  else return all

/-- The world as far as a request may touch it: the configuration files first, then what these
name. -/
def picture (r : CommandLine.Request) : IO World := do
  let cwd := (← IO.currentDir).toString
  let start : FileTree := (FileTree.empty.ensureDirectory cwd).getD FileTree.empty
  let bare : World :=
    ⟨{ start with cwd := (start.locate true cwd).getD [] }, ← environment, [], 0, false⟩
  let absolute (path : String) : String := Path.join cwd path
  let project := absolute (r.projectDir.getD cwd)
  let files := [Path.join project ConfigQuery.fileName] ++ (r.file.map absolute).toList ++
    (bare.configDir?.map fun dir =>
      Path.join (Path.join dir "rulebook") ConfigQuery.fileName).toList
  let configured := { bare with tree := ← files.foldlM addFile bare.tree }
  match Workspace.load r.file project configured with
  | .error _ => return configured
  | .ok s =>
    let sources := (s.sources.filter (!Source.isRemote ·)).map fun location =>
      absolute (Source.resolve project location)
    let tree ← (absolute s.layout.root :: sources).foldlM addDirectory configured.tree
    return { configured with tree := ← addFile tree (absolute s.loaded.config.python) }

/-- Removes what a command has removed, then makes what it has made. -/
def carryOut (before after : FileTree) : IO Unit := do
  for (l, e) in before.entries do
    if after.get? l ≠ some e && !e.isDirectory then
      try IO.FS.removeFile (FileTree.textOf l) catch _ => pure ()
  for (l, e) in before.entries do
    if e.isDirectory && (after.get? l).isNone then
      try IO.FS.removeDirAll (FileTree.textOf l) catch _ => pure ()
  for (l, e) in after.entries.reverse do
    if before.get? l ≠ some e then
      let path := FileTree.textOf l
      match e with
      | .directory => IO.FS.createDirAll path
      | .file content executable =>
        IO.FS.createDirAll (FileTree.textOf l.dropLast)
        IO.FS.writeBinFile path ⟨content.toArray⟩
        if executable then
          let all : IO.AccessRight := { read := true, write := true, execution := true }
          let others : IO.AccessRight := { read := true, execution := true }
          IO.setAccessRights path { user := all, group := others, other := others }
      | .link _ => pure ()

end HouseRules.Program

/-- Runs the program with its arguments. -/
def main (arguments : List String) : IO UInt32 := do
  let before ← match CommandLine.parse arguments with
    | .request r => Program.picture r
    | _ => pure ⟨FileTree.empty, [], [], 0, false⟩
  let (status, error, after) := CommandLine.run Shell.launch arguments before
  Program.carryOut before.tree after.tree
  (← IO.getStdout).write ⟨after.output.toArray⟩
  match error with
  | some e => IO.eprintln ("Error: " ++ e.message)
  | none => pure ()
  return status.toUInt32
