import ScriptHost.Engine.Program
import ScriptHost.Model.Error

/-!
# What an engine leaves behind

Everything the engine does to its surroundings, and every line it logs and
event it counts, is a note; the trace of a machine is the list of its notes.
-/

namespace ScriptHost

inductive Level where
  | debug
  | info
  | warn
  | error
  deriving DecidableEq, Repr, Inhabited

def Level.name : Level → String
  | debug => "DEBUG"
  | info => "INFO"
  | warn => "WARN"
  | error => "ERROR"

inductive Metric where
  | posted (result : Posting)
  | dispatchRequest
  | executed (status : String)
  | duration (event : String)
  | fault
  | forcedAbort (suppressed : Bool)
  | save (ok : Bool)
  | recovery (path : String)
  deriving DecidableEq, Repr, Inhabited

namespace Metric

def instrument : Metric → String
  | posted _ => "script.events.posted"
  | dispatchRequest => "script.dispatch.requests"
  | executed _ => "script.events.executed"
  | duration _ => "script.event.duration_ms"
  | fault => "script.faults"
  | forcedAbort _ => "script.stop.forced_aborts"
  | save _ => "script.state.saves"
  | recovery _ => "script.state.recoveries"

/-- The label that tells the counts of an instrument apart. -/
def label : Metric → String
  | posted result => "result=" ++ result.name
  | dispatchRequest | fault => ""
  | executed status => "status=" ++ status
  | duration event => "event=" ++ event
  | forcedAbort suppressed => if suppressed then "suppressed=true" else "suppressed=false"
  | save ok => if ok then "result=ok" else "result=error"
  | recovery path => "path=" ++ path

end Metric

/-- An instance as seen from outside. -/
structure Info where
  identity : Identity
  execution : Execution
  running : Bool
  state : String
  startParam : Int64
  deleting : Bool
  current : Option String
  queued : Nat
  limits : Limits
  deriving Inhabited

inductive Reply where
  | nothing
  | loaded
  | flag (b : Bool)
  | count (n : Nat)
  | posting (p : Posting)
  | failed (e : Error)
  | failedKind (e : Error)
  | noInstance
  | unknown
  | vars (vars : Vars)
  | events (events : List Event)
  | detection (d : Option Detection) (id : Uuid)
  | capability (c : Option Capability)
  | info (i : Info)
  | size (n : Option Nat)
  | bytes (data : Bytes)
  | document (data : Bytes)
  | engine (loaded : Nat)
  | name (s : Option String)
  | names (l : List String)
  | ran (turns : Nat) (busy : Bool)
  | pool (dispatched pending : Nat)
  | metrics (counts : List (Metric × Nat))
  deriving Inhabited

/-- An operation called by a handler or a hook is noted twice: when it begins, and with its
answer. -/
inductive Note where
  | dispatch (job : Nat)
  | cancel (job : Nat) (ok : Bool)
  | abort (job : Nat)
  | wait (job ms : Nat)
  | message (text : String) (channel : Int32) (position : Position) (senderName : String)
      (senderId : Uuid)
  | delete (entity : Uuid)
  | mask (localId : UInt32) (item : Uuid) (mask : UInt64)
  | clearPermissions (localId : UInt32) (item : Uuid)
  | importData (localId : UInt32) (item entity : Uuid) (data : Bytes)
  | removePlugins (localId : UInt32) (item : Uuid)
  | write (item : Uuid) (size : Nat)
  | remove (item : Uuid)
  | log (level : Level) (message : String)
  | span (item : Uuid) (event state status : String)
  | exec (item : Uuid) (state event : String) (args detected : List String)
  | interrupted (b : Bool)
  | context (identity : String) (detected : List Detection) (capabilities : Nat)
  | capability (c : Option Capability)
  | began (o : Op)
  | op (reply : Reply)
  | count (metric : Metric)
  deriving Inhabited

end ScriptHost
