import ScriptHost.Config.Basic
import ScriptHost.Model.Error
import ScriptHost.Store.FileTree
import ScriptHost.Toml.Document

/-!
# Configuration as TOML

A setting that is not given takes its default, and keys of other names are
passed over. Numbers are not negative. Written out, every setting has a line,
save an endpoint that is not set; a number that no TOML integer can hold
cannot be written.
-/

namespace ScriptHost.Config

/-- A setting of a table, or what it is if not given. -/
def setting {α : Type} (read? : Toml.Value → Option α) (m : Toml.Members) (key : String)
    (default : α) : Option α :=
  match m.lookup key with
  | none => some default
  | some v => read? v

def text? : Toml.Value → Option String
  | .string s => some s
  | _ => none

def word? : Toml.Value → Option UInt64
  | .integer n => if 0 ≤ n then some (UInt64.ofNat n.toNat) else none
  | _ => none

def ofMembers? (m : Toml.Members) : Option Config := do
  let stateDir ← setting text? m "state_dir" default.stateDir
  let maxEventQueue ← setting word? m "max_event_queue" default.maxEventQueue
  let maxStateBytes ← setting word? m "max_state_bytes" default.maxStateBytes
  let errorMessageLimit ← setting word? m "error_message_limit" default.errorMessageLimit
  let stopTimeoutMs ← setting word? m "stop_timeout_ms" default.stopTimeoutMs
  let workerThreads ← setting word? m "worker_threads" default.workerThreads
  let otelEndpoint ← setting (fun v => (text? v).map some) m "otel_endpoint" none
  let logLevel ← setting text? m "log_level" default.logLevel
  return {
    stateDir, maxEventQueue, maxStateBytes, errorMessageLimit, stopTimeoutMs, workerThreads
    otelEndpoint, logLevel }

def badConfig : Error := .config "bad engine config:"

def ofToml (text : String) : Except Error Config :=
  match (Toml.parse? text).bind ofMembers? with
  | some c => .ok c
  | none => .error badConfig

def ofFile (t : FileTree) (path : String) : Except Error Config :=
  let unreadable (cause : String) : Error :=
    .config s!"cannot read engine config {path}: {cause}"
  match t.read path with
  | .error e => .error (unreadable e.message)
  | .ok data =>
    match Text.ofBytes? data with
    | none => .error (unreadable "stream did not contain valid UTF-8")
    | some text => ofToml text

/-! ## Writing -/

def line (key : String) (value : List Char) : List Char :=
  key.toList ++ [' ', '=', ' '] ++ value ++ ['\n']

def textLine (key value : String) : List Char := line key (Toml.writeString value)

/-- A number on its line, if it is a TOML integer. -/
def wordLine? (key : String) (value : UInt64) : Option (List Char) :=
  if value.toNat < Nat.pow 2 63 then some (line key (toString value.toNat).toList) else none

def toToml? (c : Config) : Option String := do
  let maxEventQueue ← wordLine? "max_event_queue" c.maxEventQueue
  let maxStateBytes ← wordLine? "max_state_bytes" c.maxStateBytes
  let errorMessageLimit ← wordLine? "error_message_limit" c.errorMessageLimit
  let stopTimeoutMs ← wordLine? "stop_timeout_ms" c.stopTimeoutMs
  let workerThreads ← wordLine? "worker_threads" c.workerThreads
  let endpoint := match c.otelEndpoint with
    | some endpoint => textLine "otel_endpoint" endpoint
    | none => []
  return String.ofList (textLine "state_dir" c.stateDir ++ maxEventQueue ++ maxStateBytes ++
    errorMessageLimit ++ stopTimeoutMs ++ workerThreads ++ endpoint ++
    textLine "log_level" c.logLevel)

end ScriptHost.Config
