import ScriptHost.Engine.Instance
import ScriptHost.Pool.Ticket
import ScriptHost.Store.Basic
import ScriptHost.Store.Document

/-!
# The machine

Everything that the threads of an engine share: all instances ever loaded and
which of them are registered, the pool's jobs, the world, plugin data, the
document store, and the trace of notes, the latest first.

Hooks are operations that run while a collaborator is busy: while a turn is
waited for, while a message is delivered, while an entity is deleted. Each is
used once.
-/

namespace ScriptHost

/-- A turn in the pool's hands. -/
structure Job where
  owner : Nat
  ticket : Nat
  phase : Phase
  interrupted : Bool
  deriving DecidableEq, Repr, Inhabited

namespace Job

def finished (j : Job) : Bool := j.phase == .done || j.phase == .cancelled

end Job

/-- Operations to run during a wait, and what the wait then answers. -/
structure WaitHook where
  ops : List Op
  result : Option Bool

/-- The state of a host: its instances, jobs, collaborators and what was noted. -/
structure Machine where
  limits : Limits
  stopTimeout : Nat
  capabilities : CapabilityRegistry
  instances : List Instance
  /-- The registered instance of each item, in ascending order of items. -/
  registered : List (Uuid × Nat)
  /-- The names given to loaded instances, in load order. -/
  named : List (String × Nat)
  /-- The jobs of the pool; the first has number 1. -/
  jobs : List Job
  /-- The pool never takes a job back. -/
  refusesCancel : Bool
  /-- The pool aborts only jobs that run, and takes back those that have not started. -/
  abortsRunning : Bool
  entities : List (UInt32 × Entity)
  exports : List (Uuid × Bytes)
  /-- The time that saved documents bear. -/
  clock : Instant
  store : DocumentStore
  defects : List Defect
  waitHooks : List WaitHook
  messageHooks : List (List Op)
  deleteHooks : List (List Op)
  /-- How often parked handlers have been let go on. -/
  releases : Nat
  trace : List Note
  deriving Inhabited

namespace Machine

def note (m : Machine) (n : Note) : Machine := { m with trace := n :: m.trace }

def log (m : Machine) (level : Level) (message : String) : Machine := m.note (.log level message)

def count (m : Machine) (metric : Metric) : Machine := m.note (.count metric)

def has (m : Machine) (defect : Defect) : Bool := m.defects.contains defect

/-! ## Instances -/

def get? (m : Machine) (id : Nat) : Option Instance := m.instances[id]?

def modify (m : Machine) (id : Nat) (f : Instance → Instance) : Machine :=
  { m with instances := m.instances.modify id f }

/-- The instance meant by a name: the one loaded last. -/
def named? (m : Machine) (name : String) : Option Nat :=
  (m.named.reverse.find? (·.1 == name)).map (·.2)

def nameOf? (m : Machine) (id : Nat) : Option String := (m.named.find? (·.2 == id)).map (·.1)

/-- Give an instance its name. Loads are listed in the order in which they began, so one that was
called in the course of another comes after it. -/
def enlist (m : Machine) (name : String) (id place : Nat) : Machine :=
  { m with named := m.named.take place ++ (name, id) :: m.named.drop place }

def registered? (m : Machine) (item : Uuid) : Option Nat := m.registered.lookup item

def unregister (m : Machine) (item : Uuid) : Machine :=
  { m with registered := m.registered.filter (·.1 != item) }

def insertByItem (item : Uuid) (id : Nat) : List (Uuid × Nat) → List (Uuid × Nat)
  | [] => [(item, id)]
  | (other, n) :: rest =>
    if item.le other then (item, id) :: (other, n) :: rest
    else (other, n) :: insertByItem item id rest

def register (m : Machine) (item : Uuid) (id : Nat) : Machine :=
  { m with registered := insertByItem item id (m.unregister item).registered }

def attachedTo (m : Machine) (localId : UInt32) : List Nat :=
  (m.registered.map (·.2)).filter fun id =>
    match m.get? id with
    | some i => i.localId == localId
    | none => false

/-! ## The pool -/

def job? (m : Machine) (job : Nat) : Option Job := if job = 0 then none else m.jobs[job - 1]?

def modifyJob (m : Machine) (job : Nat) (f : Job → Job) : Machine :=
  { m with jobs := m.jobs.modify (job - 1) f }

def setPhase (m : Machine) (job : Nat) (phase : Phase) : Machine :=
  m.modifyJob job fun j => { j with phase := phase }

/-- Whether the pool still has a job back to give. -/
def canCancel (m : Machine) (job : Nat) : Bool :=
  match m.job? job with
  | some j => j.phase == .queued && !m.refusesCancel
  | none => false

def cancel (m : Machine) (job : Nat) : Machine :=
  let ok := m.canCancel job
  let m := m.note (.cancel job ok)
  if ok then m.setPhase job .cancelled else m

def trip (m : Machine) (job : Nat) : Machine :=
  m.modifyJob job fun j => { j with interrupted := true }

/-- Stop a job in the pool's way. -/
def abort (m : Machine) (job : Nat) : Machine :=
  let m := m.note (.abort job)
  if !m.abortsRunning then m.trip job
  else match (m.job? job).map Job.phase with
    | some .queued => m.setPhase job .cancelled
    | some .running => (m.log .warn "aborting running script turn").trip job
    | _ => m

def finished (m : Machine) (job : Nat) : Bool :=
  match m.job? job with
  | some j => j.finished
  | none => true

def interrupted (m : Machine) (job : Nat) : Bool :=
  match m.job? job with
  | some j => j.interrupted
  | none => false

def requestTurn (m : Machine) (id : Nat) : Machine :=
  match m.get? id with
  | none => m
  | some i =>
    let job := m.jobs.length + 1
    let request : Job := ⟨id, i.slot.lastTicket + 1, .queued, false⟩
    let m := { m with jobs := m.jobs ++ [request] }
    ((m.modify id fun i => i.occupy job).note (.dispatch job)).count .dispatchRequest

def oldestQueued? (m : Machine) : Option Nat :=
  (m.jobs.findIdx? (·.phase == .queued)).map (· + 1)

/-! ## The world -/

def entity? (m : Machine) (localId : UInt32) : Option Entity := m.entities.lookup localId

def setEntity (m : Machine) (e : Entity) : Machine :=
  { m with entities := (e.localId, e) :: m.entities.filter (·.1 != e.localId) }

def removeEntity (m : Machine) (localId : UInt32) : Machine :=
  { m with entities := m.entities.filter (·.1 != localId) }

def sendMask (m : Machine) (i : Instance) : Machine :=
  m.note (.mask i.localId i.item (i.program.mask i.state))

/-- Tell the world now, or at the next turn if the script is held. -/
def publishMask (m : Machine) (id : Nat) (i : Instance) : Machine :=
  (if i.held then m.log .debug "script busy, event mask update deferred" else m.sendMask i).modify
    id Instance.publish

/-- Apply what was deferred while the script was held. -/
def settle (m : Machine) (id : Nat) : Machine :=
  match m.get? id with
  | none => m
  | some i => (if i.maskStale then m.sendMask i else m).modify id Instance.settle

def edit (m : Machine) (id : Nat) (i : Instance) (e : Edit) : Machine :=
  (if i.keepsEdits then m.log .debug "script busy, variable change deferred" else m).modify id
    (·.edit e)

/-! ## Documents -/

def size (m : Machine) (item : Uuid) : Except Error (Option Nat) :=
  if m.has .failSize then .error (.other "size failed") else m.store.size item

def read (m : Machine) (item : Uuid) : Except Error Bytes :=
  if m.has .failRead then .error (.other "read failed") else m.store.read item

/-- Write a document; the store may refuse, or only pretend. -/
def write (m : Machine) (item : Uuid) (data : Bytes) : Machine × Option Error :=
  let m := m.note (.write item data.length)
  if m.has .failWrite then (m, some (.other "write failed"))
  else if m.has .loseWrite then (m, none)
  else match m.store.write item data with
    | .ok store =>
      let m := { m with store := store }
      (if store.isFiles then m.log .debug "state written" else m, none)
    | .error e => (m, some e)

def remove (m : Machine) (item : Uuid) : Machine × Option Error :=
  let m := m.note (.remove item)
  if m.has .failRemove then (m, some (.other "remove failed"))
  else match m.store.remove item with
    | .ok store => ({ m with store := store }, none)
    | .error e => (m, some e)

end Machine

end ScriptHost
