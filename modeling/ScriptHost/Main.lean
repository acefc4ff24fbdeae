import ScriptHost.Command.Run

/-!
# The program

Gathers what a command looks at (the variables of the environment, the file of
variables beside the program, the configuration file, the state directory),
runs the command, prints its report, and does to the state directory what the
command did to it. A file that cannot be read counts as missing.
-/

namespace ScriptHost.Command

def gatherFile (t : FileTree) (path : String) : IO FileTree := do
  try
    let data ← IO.FS.readBinFile path
    return t.place path (.file data.toList)
  catch _ => return t

/-- Add a directory and what lies directly in it. -/
def gatherDirectory (t : FileTree) (path : String) : IO FileTree := do
  try
    let dir ← IO.FS.realPath path
    if ← dir.isDir then
      (← dir.readDir).foldlM (fun t entry => do
        let path := FileStore.join path entry.fileName
        if ← entry.path.isDir then return t.place path .directory
        else gatherFile t path) (t.place path .directory)
    else gatherFile t path
  catch _ => return t

/-- The variables that a command may look at, `names` being those of its exporters. -/
def gatherVariables (names : List String) (t : FileTree) : IO Environment := do
  let mentioned := match t.read variablesFile with
    | .ok data => Environment.words data
    | .error _ => []
  let bindings ← (Config.variableNames ++ names ++ mentioned).filterMapM fun name => do
    return (← IO.getEnv name).map fun value => (name, value)
  return ⟨bindings⟩

/-- What a command looks at; the state directory, if it is one of these things. -/
structure Surroundings where
  env : Environment
  tree : FileTree
  stateDir : Option String

def gather (names args : List String) : IO Surroundings := do
  let t ← gatherFile .empty variablesFile
  let env ← gatherVariables names t
  match Arguments.parse args with
  | .run path command =>
    let t ← match path with
      | some path => gatherFile t path
      | none => pure t
    match command, configuration (surroundings env t) t path with
    | .config, _ | _, .error _ => return ⟨env, t, none⟩
    | _, .ok c => return ⟨env, ← gatherDirectory t c.stateDir, some c.stateDir⟩
  | _ => return ⟨env, t, none⟩

def apply (dir : String) (before after : FileTree) : IO Unit := do
  let loc := FileTree.locate dir
  if (before.get? loc).isNone && (after.get? loc).isSome then IO.FS.createDirAll dir
  for (here, _) in before.entries do
    if FileTree.isChild loc here && (after.get? here).isNone then
      if let some name := here.getLast? then IO.FS.removeFile (FileStore.join dir name)

/-- Run a command in the working directory, with exporters that look at the variables `names`. -/
def main (x : Exporters) (names args : List String) : IO UInt32 := do
  let s ← gather names args
  let report := run x args s.env s.tree
  if let some dir := s.stateDir then apply dir s.tree report.tree
  IO.print report.output
  IO.eprint report.complaint
  return UInt32.ofNat report.exit

end ScriptHost.Command
