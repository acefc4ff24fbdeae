import ScriptHost.Engine.Note

/-!
# Script instances

One program bound to one entity: its queue, at most one outstanding turn, the
script itself and what others see of it. The outstanding turn is known by a
ticket; a turn whose ticket is no longer the slot's has been abandoned.

A handler holds the script while it runs, and so does whoever edits the
variables or tells the world a mask, for as long as this takes. Variables are
read from a snapshot, and what finds the script held is kept until a turn
settles it.
-/

namespace ScriptHost

/-- A turn that the pool was asked for. -/
structure Turn where
  ticket : Nat
  job : Nat
  deriving DecidableEq, Repr, Inhabited

/-- What is guarded together: the queue, the running flag, the outstanding turn. -/
structure Slot where
  queue : Queue
  running : Bool
  current : Option Turn
  lastTicket : Nat
  deriving Inhabited

def Slot.owns (s : Slot) (ticket : Nat) : Bool :=
  match s.current with
  | some turn => turn.ticket == ticket
  | none => false

/-- Whether there is something to run for a slot without an outstanding turn. -/
def Slot.hasWork (s : Slot) : Bool := s.running && !s.queue.isEmpty

/-- A change to variables from outside a handler. -/
inductive Edit where
  | setVars (vars : Vars)
  | resetVars

/-- What a script is held for from outside a handler. -/
inductive Errand where
  | edit
  | mask
  deriving DecidableEq, Repr, Inhabited

inductive Holder where
  | handler
  | errand (e : Errand)
  deriving DecidableEq, Repr, Inhabited

structure Instance where
  identity : Identity
  limits : Limits
  capabilities : List (CapabilityKind × Capability)
  program : Program
  /-- The script's own variables. -/
  live : Vars
  /-- How often each handler has run. -/
  runs : List (String × Nat)
  holder : Option Holder
  /-- The variables as of the last finished turn or edit. -/
  vars : Vars
  initialVars : Vars
  /-- The latest edit that found the script held. -/
  pendingEdit : Option Edit
  maskStale : Bool
  slot : Slot
  state : String
  startParam : Int64
  /-- What was detected by the executing event. -/
  detected : List Detection
  currentEvent : Option String
  selfDeleting : Bool
  deriving Inhabited

namespace Instance

def defaultState : String := "default"

def create (request : LoadRequest) (program : Program) (limits : Limits)
    (capabilities : List (CapabilityKind × Capability)) : Instance where
  identity := request.identity
  limits := limits
  capabilities := capabilities
  program := program
  live := program.initial
  runs := []
  holder := none
  vars := program.initial
  initialVars := program.initial
  pendingEdit := none
  maskStale := false
  slot := ⟨.empty limits.queueCapacity, false, none, 0⟩
  state := defaultState
  startParam := request.startParam
  detected := []
  currentEvent := none
  selfDeleting := false

def item (i : Instance) : Uuid := i.identity.item

def localId (i : Instance) : UInt32 := i.identity.localId

/-- Scheduled whenever a turn is outstanding, also while a stop waits for it. -/
def execution (i : Instance) : Execution :=
  if i.slot.current.isSome then .scheduled
  else if i.slot.running then .idle
  else .stopped

def owns (i : Instance) (ticket : Nat) : Bool := i.slot.owns ticket

def capability? (i : Instance) (kind : CapabilityKind) : Option Capability :=
  i.capabilities.lookup kind

def info (i : Instance) : Info where
  identity := i.identity
  execution := i.execution
  running := i.slot.running
  state := i.state
  startParam := i.startParam
  deleting := i.selfDeleting
  current := i.currentEvent
  queued := i.slot.queue.length
  limits := i.limits

def apply (i : Instance) : Edit → Vars
  | .setVars vars => i.program.retain vars
  | .resetVars => i.program.initial

/-- What others see of an edit at once. -/
def preview (i : Instance) : Edit → Vars
  | .setVars vars => vars
  | .resetVars => i.initialVars

def held (i : Instance) : Bool := i.holder.isSome

/-- Whether an edit has to be kept for later. One that finds another at work does not: edits wait
for each other, so that it comes after the other has let go. -/
def keepsEdits (i : Instance) : Bool := i.held && i.holder != some (.errand .edit)

/-- Change the variables from outside: at once, or at the next turn if the script is held. -/
def edit (i : Instance) (e : Edit) : Instance :=
  if i.keepsEdits then { i with vars := i.preview e, pendingEdit := some e }
  else
    { i with
      live := i.apply e, vars := i.apply e, pendingEdit := none, holder := some (.errand .edit) }

/-- Tell the world a mask: at once, or at the next turn if the script is held. -/
def publish (i : Instance) : Instance :=
  { i with
    holder := some (i.holder.getD (.errand .mask))
    maskStale := i.maskStale || i.held }

/-- What the script was held for is done. Of edits that follow each other, the first to let go does
so for the last. -/
def letGo (i : Instance) (e : Errand) : Instance :=
  { i with holder := i.holder.filter (· ≠ .errand e) }

/-- Apply what was kept while the script was held and refresh the snapshot. -/
def settle (i : Instance) : Instance :=
  let live := match i.pendingEdit with
    | some e => i.apply e
    | none => i.live
  { i with live := live, vars := live, pendingEdit := none, maskStale := false }

def clearSnapshot (i : Instance) : Instance := { i with detected := [], currentEvent := none }

def setRunning (i : Instance) (running : Bool) : Instance :=
  { i with slot := { i.slot with running := running } }

def setQueue (i : Instance) (queue : Queue) : Instance :=
  { i with slot := { i.slot with queue := queue } }

def release (i : Instance) : Instance := { i with slot := { i.slot with current := none } }

def occupy (i : Instance) (job : Nat) : Instance :=
  let ticket := i.slot.lastTicket + 1
  { i with slot := { i.slot with current := some ⟨ticket, job⟩, lastTicket := ticket } }

def take (i : Instance) (e : Event) (rest : Queue) : Instance :=
  { i.setQueue rest with
    detected := e.detected
    currentEvent := if e.isSetState then i.currentEvent else some e.name }

def countRun (i : Instance) (key : String) : Instance :=
  let n := (i.runs.lookup key).getD 0
  { i with runs := (key, n + 1) :: i.runs.filter (·.1 != key) }

end Instance

end ScriptHost
