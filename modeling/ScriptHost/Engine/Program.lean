import ScriptHost.Config.Basic
import ScriptHost.Model.Capability
import ScriptHost.Model.Fault
import ScriptHost.Model.Queue

/-!
# Programs and operations

What a script program can do, and what can be done to an engine and its
surroundings. The two belong together: a handler may call operations while it
runs, and the operation that loads a script carries its program.

A handler is a list of actions, which may depend on how often it has run
before and, through `choose`, on what it sees while it runs.
-/

namespace ScriptHost

inductive Outcome where
  | completed
  | eventAborted
  | selfDelete
  | cancelled
  | fault (f : Fault)
  deriving DecidableEq, Repr, Inhabited

def Outcome.status : Outcome → String
  | completed => "completed"
  | eventAborted => "event_aborted"
  | selfDelete => "self_delete"
  | cancelled => "cancelled"
  | fault _ => "fault"

inductive Finish where
  | returned (o : Outcome)
  | panicked (p : Payload)
  deriving DecidableEq, Repr, Inhabited

/-- A panic goes no further than the call: it is caught, and counts as a fault. -/
def Finish.caught : Finish → Outcome
  | returned o => o
  | panicked p => .fault (.ofPanic p)

/-- What a handler asks of its own instance; applied once it has returned. -/
inductive Request where
  | setState (state : String)
  | reset
  deriving DecidableEq, Repr, Inhabited

structure LoadRequest where
  identity : Identity
  startParam : Int64
  postOnRez : Bool
  source : Source
  deriving DecidableEq, Repr, Inhabited

/-- What a handler can look at while it runs. -/
structure View where
  vars : Vars
  event : Event
  interrupted : Bool

/-- Misbehaviour of the collaborators that can be switched on and off. -/
inductive Defect where
  | refuseMessages
  | refuseDelete
  | failWrite
  | loseWrite
  | failRemove
  | failSize
  | failRead
  deriving DecidableEq, Repr, Inhabited

inductive StoreQuery where
  | exists
  | size
  | read
  | remove
  deriving DecidableEq, Repr, Inhabited

mutual

/-- A script: its first variables, which variables it keeps of those it is given, the event mask of
a state, and the actions that answer an event in a state, by the run. -/
inductive Program where
  | mk (initial : Vars) (retain : Vars → Vars) (mask : String → UInt64)
      (handler : String → String → Option (String × (Nat → List Action)))

inductive Action where
  | set (name : String) (value : Value)
  | takeArgument (name : String)
  | increment (name : String)
  | request (r : Request)
  | perform (ops : List Op)
  | showInterrupt
  | cancelIfInterrupted
  | showContext
  | showCapability (kind : Option CapabilityKind)
  | park (untilInterrupted : Bool)
  | choose (next : View → List Action)
  | finish (how : Finish)

/-- An operation on the host, from outside or from inside a handler. -/
inductive Op where
  | load (name : String) (request : LoadRequest) (program : Program) (direct : Option Limits)
  | post (target : String) (event : Event)
  | setState (target : String) (state : String)
  | start (target : String)
  | stop (target : String) (ms : Nat)
  | reset (target : String)
  | apiReset (target : String)
  | save (target : String)
  | removeState (target : String)
  | clearQueue (target : String)
  | setVars (target : String) (vars : Vars)
  | setStartParam (target : String) (value : Int64)
  | showVars (target : String)
  | showQueue (target : String)
  | showDetection (target : String) (index : Nat)
  | showCapability (target : String) (kind : Option CapabilityKind)
  | showInfo (target : String)
  | unknownOn (target : String)
  | postItem (item : Uuid) (event : Event)
  | postObject (localId : UInt32) (event : Event)
  | remove (item : Uuid)
  | stopAll
  | saveAll
  | shutdown
  | showEngine
  | showLoaded (item : Uuid)
  | showOn (localId : UInt32)
  | run (turns : Nat)
  | showPool
  | entity (e : Entity)
  | noEntity (localId : UInt32)
  | switch (defect : Defect) (on : Bool)
  | onWait (ops : List Op) (result : Option Bool)
  | onMessage (ops : List Op)
  | onDelete (ops : List Op)
  | setExport (item : Uuid) (data : Bytes)
  | put (item : Uuid) (data : Bytes) (padTo : Nat)
  | pad (item : Uuid) (more : Nat) (least : Nat)
  | showDocument (item : Uuid)
  | store (query : StoreQuery) (item : Uuid)
  | showMetrics
  | release
  | unknown

end

instance : Inhabited Action := ⟨.showInterrupt⟩

instance : Inhabited Op := ⟨.unknown⟩

namespace Program

def initial : Program → Vars
  | mk initial _ _ _ => initial

def retain : Program → Vars → Vars
  | mk _ retain _ _ => retain

def mask : Program → String → UInt64
  | mk _ _ mask _ => mask

/-- The handler of an event in a state: the key under which its runs are counted, and what the
run after so many others does. -/
def handler : Program → String → String → Option (String × (Nat → List Action))
  | mk _ _ _ handler => handler

/-- A program without variables and handlers, listening in a state for the events that the
length of its name spells. -/
def idle : Program := mk .empty id (fun state => UInt64.ofNat state.utf8ByteSize) fun _ _ => none

instance : Inhabited Program := ⟨idle⟩

end Program

end ScriptHost
