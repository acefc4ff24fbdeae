import ScriptHost.Json.Tree

/-!
# Engine configuration

The settings of an engine with their defaults, and the bounds of one instance
that follow from them.
-/

namespace ScriptHost

structure Config where
  /-- Where state documents are kept. -/
  stateDir : String
  /-- The capacity of an instance's event queue. -/
  maxEventQueue : UInt64
  /-- Documents of this size or more are not loaded. -/
  maxStateBytes : UInt64
  /-- In-world fault messages are cut to this many characters. -/
  errorMessageLimit : UInt64
  stopTimeoutMs : UInt64
  workerThreads : UInt64
  otelEndpoint : Option String
  logLevel : String
  deriving DecidableEq, Repr, Inhabited

namespace Config

def default : Config where
  stateDir := "script-state"
  maxEventQueue := 300
  maxStateBytes := 512000
  errorMessageLimit := 1400
  stopTimeoutMs := 1000
  workerThreads := 16
  otelEndpoint := none
  logLevel := "info"

def tokens (c : Config) : List Json.Token :=
  let int (n : UInt64) : List Json.Token := [.int n.toNat]
  Json.objectTokens [
    ("state_dir", [.string c.stateDir]),
    ("max_event_queue", int c.maxEventQueue),
    ("max_state_bytes", int c.maxStateBytes),
    ("error_message_limit", int c.errorMessageLimit),
    ("stop_timeout_ms", int c.stopTimeoutMs),
    ("worker_threads", int c.workerThreads),
    ("otel_endpoint", [match c.otelEndpoint with
      | some endpoint => .string endpoint
      | none => .null]),
    ("log_level", [.string c.logLevel])]

end Config

structure Limits where
  queueCapacity : Nat
  maxStateBytes : Nat
  errorMessageLimit : Nat
  deriving DecidableEq, Repr, Inhabited

def Limits.ofConfig (c : Config) : Limits :=
  ⟨c.maxEventQueue.toNat, c.maxStateBytes.toNat, c.errorMessageLimit.toNat⟩

end ScriptHost
