import ScriptHost.Engine.Machine

/-!
# Sections of work

An operation is carried out in sections; each section is done at once, and
other threads may move between two of them. An instruction is one section
that is still to be done, together with what its operation has found out so
far. What is guarded by one lock is one instruction, save that a script that was
held is let go in another; a call of a collaborator that may run hooks is split
before its answer.
-/

namespace ScriptHost

inductive Saving where
  | running
  | state (running : Bool)
  | vars (running : Bool) (state : String)
  | plugins (running : Bool) (state : String) (vars : Vars)
  | queue (running : Bool) (state : String) (vars : Vars) (plugins : Bytes)
  | write (d : Document)
  | verify

/-- A handler at work: the turn, the event, and what it has asked for so far. -/
structure Invocation where
  id : Nat
  ticket : Nat
  job : Nat
  event : Event
  state : String
  detected : List Detection
  requests : List Request
  deriving Inhabited

/-- What a load was asked for: the name to give the instance, its bounds, and whether the engine
registers it; and how many names there were when the load began. -/
structure Loading where
  name : String
  request : LoadRequest
  program : Program
  limits : Limits
  registers : Bool
  place : Nat
  deriving Inhabited

/-- A piece of work that is still to be done. -/
inductive Instr where
  -- operations and their answers
  | op (o : Op)
  | noteBegin (o : Op)
  | noteReply
  | answer (r : Reply)
  | log (level : Level) (message : String)
  | count (metric : Metric)
  -- the state machine of an instance
  | start (id : Nat)
  | stop (id ms : Nat)
  | stopWait (id ms : Nat) (turn : Turn)
  | stopWaited (id ms : Nat) (turn : Turn) (forced : Option Bool)
  | stopCheck (id ms : Nat) (turn : Turn)
  | stopAbort (id : Nat) (turn : Turn)
  | stopEnd (id : Nat) (turn : Turn)
  | post (id : Nat) (e : Event)
  | clearQueue (id : Nat)
  | edit (id : Nat) (e : Edit)
  | replaceState (id : Nat) (state : String)
  | clearPermissions (id : Nat)
  | removePlugins (id : Nat)
  | removeState (id : Nat)
  | publishMask (id : Nat)
  | letGo (id : Nat) (e : Errand)
  | reset (id : Nat)
  | stateEntryUnlessCurrent (id : Nat)
  -- saving
  | save (id : Nat) (s : Saving)
  | saveEach (ids : List Nat) (first : Option Error)
  | shutdownEach (ids : List Nat) (first : Option Error)
  | saved (ids : List Nat) (first : Option Error) (shutdown : Bool)
  -- loading
  | load (l : Loading)
  | recoverSize (id : Nat) (l : Loading)
  | recoverRead (id : Nat) (l : Loading)
  | importData (id : Nat) (data : Bytes)
  | refill (id : Nat) (events : List Event)
  | register (id : Nat)
  | loaded (id : Nat) (name : String) (place : Nat)
  -- posting to many
  | postEach (ids : List Nat) (e : Event) (accepted : Nat)
  | posted (ids : List Nat) (e : Event) (accepted : Nat)
  -- a worker's turn
  | run (turns ran : Nat)
  | takeTurn (id ticket job : Nat)
  | readDetected (v : Invocation)
  | lockScript (v : Invocation)
  | settle (id : Nat)
  | enter (v : Invocation)
  | act (v : Invocation) (actions : List Action)
  | parked (job : Nat) (untilInterrupted : Bool) (releases : Nat)
  | unlock (id : Nat)
  | applyRequests (v : Invocation) (outcome : Outcome)
  | conclude (v : Invocation) (outcome : Outcome)
  | selfDelete (id : Nat)
  | deleted (e : Entity)
  | showFault (v : Invocation) (f : Fault)
  | delivered (text : String) (e : Entity)
  | record (v : Invocation) (outcome : Outcome)
  | finishTurn (id ticket : Nat)
  | jobDone (job : Nat)
  deriving Inhabited

namespace Instr

/-- Operations one after the other, the beginning and the answer of each noted. -/
def nested (ops : List Op) : List Instr := ops.flatMap fun o => [.noteBegin o, .op o, .noteReply]

/-- A switch of the named state, through the queue. -/
def setState (id : Nat) (state : String) : List Instr :=
  [.post id .stateExit, .post id (.setState state), .post id .stateEntry]

def revokeGrants (id : Nat) : List Instr := [.clearPermissions id, .removePlugins id]

/-- A reset that the script asks for itself: queue and running flag stay. -/
def apiReset (id : Nat) : List Instr :=
  [.removeState id, .edit id .resetVars] ++ revokeGrants id ++
    [.replaceState id Instance.defaultState, .publishMask id, .stateEntryUnlessCurrent id]

/-- A reset from outside, once the running flag has been read. -/
def resetAll (id : Nat) (wasRunning : Bool) : List Instr :=
  [.stop id 0, .removeState id] ++ revokeGrants id ++
    [.clearQueue id, .edit id .resetVars, .replaceState id Instance.defaultState,
      .publishMask id] ++
    (if wasRunning then [.start id] else []) ++ [.post id .stateEntry]

def request (id : Nat) : Request → List Instr
  | .setState state => setState id state
  | .reset => apiReset id

def freshStart (id : Nat) (r : LoadRequest) : List Instr :=
  [.start id, .post id .stateEntry] ++
    (if r.postOnRez then [.post id (.onRez r.startParam)] else [])

def restore (id : Nat) (r : LoadRequest) (d : Document) : List Instr :=
  [.replaceState id d.state, .edit id (.setVars d.vars)] ++
    (if d.pluginData.isEmpty then [] else [.importData id d.pluginData]) ++
    [.refill id d.queue, .log .debug "retrieved script state"] ++
    (if d.running then
      .start id :: (if r.postOnRez then [.post id (.onRez r.startParam)] else []) else []) ++
    (if r.source = .newRez then [.post id .regionRestart] else [])

def finishLoad (id : Nat) (l : Loading) : List Instr :=
  .publishMask id :: (if l.registers then [.register id] else []) ++ [.loaded id l.name l.place]

end Instr

end ScriptHost
