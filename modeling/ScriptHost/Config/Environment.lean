import ScriptHost.Config.Basic
import ScriptHost.Environment.Basic
import ScriptHost.Model.Error
import ScriptHost.Text.Blank
import ScriptHost.Text.Numeral
import ScriptHost.Text.Quoted

/-!
# Configuration from the environment

The state directory has to be given; numbers may be surrounded by blanks; all
else takes its default. The first variable that is missing or malformed, in
the order of the settings, is the one that is reported.
-/

namespace ScriptHost

namespace Config

def required (env : Environment) (name : String) : Except Error String :=
  match env.get? name with
  | some value => .ok value
  | none => .error (.config s!"required environment variable {name} is not set")

def number (env : Environment) (name : String) (default : UInt64) : Except Error UInt64 :=
  match env.get? name with
  | none => .ok default
  | some raw =>
    match Text.readWord (Text.trim raw.toList) with
    | .ok n => .ok n
    | .error e => .error (.config (name ++ "=" ++ Text.quoted raw ++ ": " ++ e.message))

/-- The variables that `ofEnvironment` looks at. -/
def variableNames : List String :=
  ["SCRIPT_STATE_DIR", "SCRIPT_MAX_EVENT_QUEUE", "SCRIPT_MAX_STATE_BYTES",
    "SCRIPT_ERROR_MESSAGE_LIMIT", "SCRIPT_STOP_TIMEOUT_MS", "SCRIPT_WORKER_THREADS",
    "OTEL_ENDPOINT", "LOG_LEVEL"]

def ofEnvironment (env : Environment) : Except Error Config := do
  let stateDir ← required env "SCRIPT_STATE_DIR"
  let maxEventQueue ← number env "SCRIPT_MAX_EVENT_QUEUE" default.maxEventQueue
  let maxStateBytes ← number env "SCRIPT_MAX_STATE_BYTES" default.maxStateBytes
  let errorMessageLimit ← number env "SCRIPT_ERROR_MESSAGE_LIMIT" default.errorMessageLimit
  let stopTimeoutMs ← number env "SCRIPT_STOP_TIMEOUT_MS" default.stopTimeoutMs
  let workerThreads ← number env "SCRIPT_WORKER_THREADS" default.workerThreads
  return {
    stateDir, maxEventQueue, maxStateBytes, errorMessageLimit, stopTimeoutMs, workerThreads
    otelEndpoint := env.get? "OTEL_ENDPOINT"
    logLevel := (env.get? "LOG_LEVEL").getD default.logLevel }

end Config

end ScriptHost
