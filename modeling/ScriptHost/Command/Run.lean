import ScriptHost.Command.Arguments
import ScriptHost.Config.Environment
import ScriptHost.Config.Toml
import ScriptHost.Environment.File
import ScriptHost.Store.Document
import ScriptHost.Store.Files

/-!
# The operator's commands

What the program prints and leaves behind for a command line, an environment
and the files below its working directory. What has been printed before an
error stays printed.
-/

namespace ScriptHost

structure Report where
  exit : Nat
  output : String
  complaint : String
  tree : FileTree
  deriving Inhabited

inductive CommandError where
  | engine (e : Error)
  | numberTooLarge
  | noMatch (start : String)
  | manyMatches (count : Nat) (start : String)
  | badItem
  deriving DecidableEq, Repr, Inhabited

namespace CommandError

def message : CommandError → String
  | engine e => e.message
  | numberTooLarge => "out-of-range value for u64 type"
  | noMatch start => s!"no stored state matching prefix '{start}'"
  | manyMatches count start => s!"{count} items match prefix '{start}', be more specific"
  | badItem => "invalid id"

/-- The report of an error; one that the files caused names its cause once more. -/
def complaint (e : CommandError) : String :=
  "Error: " ++ e.message ++ "\n" ++
    match e with
    | engine (.io cause) => "\nCaused by:\n    " ++ cause ++ "\n"
    | _ => ""

end CommandError

namespace Command

def left (width : Nat) (s : String) : String :=
  s ++ String.ofList (List.replicate (width - s.length) ' ')

def right (width : Nat) (s : String) : String :=
  String.ofList (List.replicate (width - s.length) ' ') ++ s

def yesNo (b : Bool) : String := if b then "true" else "false"

/-- What stands in a document, if loading it would restore it. -/
inductive Verdict where
  | overLimit
  | malformed (failure : Failure)
  | loadable (d : Document)

def judge (c : Config) (size : Nat) (data : Bytes) : Verdict :=
  if c.maxStateBytes.toNat ≤ size then .overLimit
  else match Document.decode data with
    | .ok d => .loadable d
    | .error f => .malformed f

/-! ## List -/

def headings : String :=
  left 36 "ITEM" ++ "  " ++ right 8 "BYTES" ++ "  " ++ left 8 "RUNNING" ++ "  " ++
    left 16 "STATE" ++ "  SAVED\n" ++ String.ofList (List.replicate 100 '-') ++ "\n"

def row (item : Uuid) (size : Nat) : Option Document → String
  | some d =>
    left 36 item.text ++ "  " ++ right 8 (toString size) ++ "  " ++ left 8 (yesNo d.running) ++
      "  " ++ left 16 d.state ++ "  " ++ d.savedAt.brief ++ "\n"
  | none => left 36 item.text ++ "  " ++ right 8 (toString size) ++ "  (unloadable)\n"

/-- The line of an item in the store. A document over the limit is not read. -/
def rowOf (c : Config) (s : FileStore) (t : FileTree) (item : Uuid) : Except Error String := do
  let size := (← s.size t item).getD 0
  if c.maxStateBytes.toNat ≤ size then return row item size none
  let data ← s.read t item
  return row item size (Document.decode data).toOption

def rows (c : Config) (s : FileStore) (t : FileTree) : List Uuid → String × Option Error
  | [] => ("", none)
  | item :: items =>
    match rowOf c s t item with
    | .error e => ("", some e)
    | .ok line =>
      let (more, e) := rows c s t items
      (line ++ more, e)

def listing (c : Config) (s : FileStore) (t : FileTree) : String × Option CommandError :=
  match s.list t with
  | .error e => ("", some (.engine e))
  | .ok [] => (s!"No stored script state in {s.dir}.\n", none)
  | .ok items =>
    match rows c s t items with
    | (lines, some e) => (headings ++ lines, some (.engine e))
    | (lines, none) => (headings ++ lines ++ s!"\n{items.length} document(s)\n", none)

/-! ## Show and remove -/

/-- The item that a word means: one in full, or the only stored one that begins so. -/
def resolve (s : FileStore) (t : FileTree) (word : String) : Except CommandError Uuid :=
  if 36 ≤ word.utf8ByteSize then
    match Uuid.parse? word with
    | some item => .ok item
    | none => .error .badItem
  else match s.list t with
    | .error e => .error (.engine e)
    | .ok items =>
      match items.filter fun item => word.toList.isPrefixOf item.text.toList with
      | [] => .error (.noMatch word)
      | [item] => .ok item
      | many => .error (.manyMatches many.length word)

def verdictLines (c : Config) (size : Nat) (data : Bytes) : String :=
  match judge c size data with
  | .overLimit => "Status:     over limit, would be discarded on load\n"
  | .malformed f =>
    s!"Status:     malformed, would be discarded on load ({(Error.encode f).message})\n"
  | .loadable d =>
    s!"State:      {d.state}\n" ++ s!"Running:    {yesNo d.running}\n" ++
      s!"Saved:      {d.savedAt.text}\n" ++ s!"Plugin:     {d.pluginData.length} bytes\n" ++
      s!"Queued:     {d.queue.length} event(s)\n" ++
      String.join (d.queue.map fun e => s!"  - {e.name}\n") ++
      s!"Vars:       {d.vars.bindings.length}\n" ++
      String.join (d.vars.bindings.map fun (name, value) => s!"  {name} = {value.text}\n")

def details (c : Config) (s : FileStore) (t : FileTree) (word : String) :
    Except CommandError String := do
  let item ← resolve s t word
  let size := (← (s.size t item).mapError .engine).getD 0
  let data ← (s.read t item).mapError .engine
  return s!"Item:       {item.text}\n" ++ s!"Path:       {s.path item}\n" ++
    s!"Size:       {size} bytes (limit {c.maxStateBytes.toNat})\n" ++ verdictLines c size data

def removal (s : FileStore) (t : FileTree) (word : String) :
    Except CommandError (String × FileTree) := do
  let item ← resolve s t word
  let t ← (s.remove t item).mapError .engine
  return (s!"Removed state for {item.text}\n", t)

/-! ## Running -/

/-- The configuration: from a file that is named, else from the environment. -/
def configuration (env : Environment) (t : FileTree) : Option String → Except Error Config
  | some path => Config.ofFile t path
  | none => Config.ofEnvironment env

/-- The exporters of a telemetry library. Each is built for the address of a collector, or says why
it cannot be; what it is built from besides is the environment. -/
structure Exporters where
  span : Environment → String → Except String Unit
  metric : Environment → String → Except String Unit
  log : Environment → String → Except String Unit

def exporterError (signal reason : String) : Error :=
  .other s!"failed to create OTLP {signal} exporter: {reason}"

/-- Set up what is exported to a collector, if the configuration names one. -/
def initTelemetry (x : Exporters) (env : Environment) (c : Config) : Except Error Unit :=
  match c.otelEndpoint with
  | none => .ok ()
  | some address => do
    (x.span env address).mapError (exporterError "span")
    (x.metric env address).mapError (exporterError "metric")
    (x.log env address).mapError (exporterError "log")

def succeed (output : String) (t : FileTree) : Report := ⟨0, output, "", t⟩

def fail (e : CommandError) (output : String) (t : FileTree) : Report :=
  ⟨1, output, e.complaint, t⟩

/-- A command once the configuration stands. The state directory is made if it is missing. -/
def act (c : Config) (t : FileTree) : Command → Report
  | .config =>
    match c.toToml? with
    | some text => succeed text t
    | none => fail .numberTooLarge "" t
  | command =>
    match FileStore.open t c.stateDir with
    | .error e => fail (.engine e) "" t
    | .ok (s, t) =>
      match command with
      | .show word =>
        match details c s t word with
        | .ok output => succeed output t
        | .error e => fail e "" t
      | .remove word =>
        match removal s t word with
        | .ok (output, t) => succeed output t
        | .error e => fail e "" t
      | _ =>
        match listing c s t with
        | (output, none) => succeed output t
        | (output, some e) => fail e output t

def variablesFile : String := ".env"

def surroundings (env : Environment) (t : FileTree) : Environment :=
  match t.read variablesFile with
  | .ok data => env.load data
  | .error _ => env

def run (x : Exporters) (args : List String) (env : Environment) (t : FileTree) : Report :=
  match Arguments.parse args with
  | .bad => ⟨2, "", Arguments.usage .root, t⟩
  | .help topic => succeed (Arguments.helpText topic) t
  | .run path command =>
    match configuration (surroundings env t) t path with
    | .error e => fail (.engine e) "" t
    | .ok c =>
      match initTelemetry x (surroundings env t) c with
      | .error e => fail (.engine e) "" t
      | .ok () => act c t command

end Command

end ScriptHost
