import ScriptHost.Engine.Instr

/-!
# Carrying out one section

`Instr.exec` does one section: it changes the machine, says what is to be done
next, and sets the answer of the operation at work. A section about an
instance that does not exist does nothing.
-/

namespace ScriptHost

/-- What a section leaves: the machine, the sections to do before all others, the answer. -/
structure Done where
  machine : Machine
  next : List Instr
  reply : Reply

namespace Machine

/-! ## The state machine of an instance -/

def start (m : Machine) (id : Nat) (i : Instance) : Machine :=
  if i.slot.running then m
  else
    let m := m.modify id (·.setRunning true)
    if i.slot.queue.isEmpty then m
    else if i.slot.current.isNone then m.requestTurn id
    else m.log .warn "tried to start a script that was already queued"

/-- The first section of a stop: settle it at once if no turn is outstanding or the pool gives the
turn back, else there is a turn to wait for. -/
def beginStop (m : Machine) (id : Nat) (i : Instance) : Machine × Option Turn :=
  if !i.slot.running then (m, none)
  else match i.slot.current with
    | none => (m.modify id (·.setRunning false), none)
    | some turn =>
      let taken := m.canCancel turn.job
      let m := m.cancel turn.job
      if taken then (m.modify id fun i => i.release.setRunning false, none)
      else (m.modify id (·.setRunning false), some turn)

/-- Force the turn to end, unless the script is deleting its own entity. -/
def forceAbort (m : Machine) (i : Instance) (turn : Turn) : Machine :=
  if i.selfDeleting then
    (m.log .debug "forced abort suppressed during self-delete").count (.forcedAbort true)
  else
    ((m.log .warn "event did not finish in time, aborting").abort turn.job).count
      (.forcedAbort false)

def endStop (m : Machine) (id : Nat) (i : Instance) (turn : Turn) : Machine :=
  if i.owns turn.ticket then
    let m := m.modify id fun i => i.release.clearSnapshot
    if i.slot.hasWork then m.requestTurn id else m
  else m

/-- Queue an event, and ask for a turn if none is outstanding. -/
def post (m : Machine) (id : Nat) (i : Instance) (e : Event) : Machine × Posting :=
  if !i.slot.running then (m.count (.posted .notRunning), .notRunning)
  else
    let (queue, posting) := i.slot.queue.push e
    let m := m.modify id (·.setQueue queue)
    let m := if posting.isAccepted && i.slot.current.isNone then m.requestTurn id else m
    (m.count (.posted posting), posting)

/-- A turn has ended: hand the slot on if it is still the turn's. -/
def finishTurn (m : Machine) (id : Nat) (i : Instance) (ticket : Nat) : Machine :=
  if i.owns ticket then
    let m := m.modify id Instance.clearSnapshot
    if i.slot.hasWork then m.requestTurn id else m.modify id Instance.release
  else m.log .debug "abandoned turn finished"

/-! ## Turns -/

/-- The switch of the named state that a reserved record asks for. -/
def switchState (m : Machine) (id : Nat) (e : Event) : Machine × List Instr :=
  match e.args with
  | [] => (m.log .warn "state change without a target state ignored", [])
  | target :: _ =>
    (m.log .debug "script state changed",
      [.replaceState id target.text, .removePlugins id, .publishMask id,
        .count (.executed "set_state")])

/-- A worker starts on a turn: take one event, unless the turn is stale. -/
def takeTurn (m : Machine) (id : Nat) (i : Instance) (ticket job : Nat) : Machine × List Instr :=
  if i.owns ticket then
    match i.slot.queue.pop? with
    | none => (m.modify id Instance.release, [])
    | some (e, rest) =>
      let m := m.modify id fun i => i.take e rest
      if e.isSetState then
        let (m, next) := m.switchState id e
        (m, next ++ [.finishTurn id ticket])
      else
        (m, [.readDetected ⟨id, ticket, job, e, "", [], []⟩, .finishTurn id ticket])
  else (m.log .debug "stale turn skipped", [])

/-- The handler of an event begins: its actions, by the number of its earlier runs. -/
def enter (m : Machine) (i : Instance) (v : Invocation) : Machine × List Instr :=
  let v := { v with state := i.state }
  let m := m.note (.exec i.item v.state v.event.name (v.event.args.map Value.text)
    (v.detected.map (·.name)))
  match i.program.handler v.state v.event.name with
  | none => (m, [.act v []])
  | some (key, actions) =>
    let n := (i.runs.lookup key).getD 0
    (m.modify v.id (·.countRun key), [.act v (actions n)])

def leave (v : Invocation) (outcome : Outcome) : List Instr :=
  [.settle v.id, .unlock v.id, .applyRequests v outcome]

/-- The next integer, from zero for what is no integer. -/
def incremented (value : Option Value) : Value :=
  .integer (((value.bind Value.integer?).getD 0) + 1)

def act (m : Machine) (i : Instance) (v : Invocation) : List Action → Machine × List Instr
  | [] => (m, leave v .completed)
  | a :: rest =>
    let setVar (name : String) (value : Value) : Machine :=
      m.modify v.id fun i => { i with live := i.live.insert name value }
    match a with
    | .set name value => (setVar name value, [.act v rest])
    | .takeArgument name =>
      match v.event.args with
      | value :: _ => (setVar name value, [.act v rest])
      | [] => (m, [.act v rest])
    | .increment name => (setVar name (incremented (i.live.get? name)), [.act v rest])
    | .request r => (m, [.act { v with requests := v.requests ++ [r] } rest])
    | .perform ops => (m, Instr.nested ops ++ [.act v rest])
    | .showInterrupt => (m.note (.interrupted (m.interrupted v.job)), [.act v rest])
    | .cancelIfInterrupted =>
      if m.interrupted v.job then (m, leave v .cancelled) else (m, [.act v rest])
    | .showContext =>
      (m.note (.context i.identity.text v.detected i.capabilities.length), [.act v rest])
    | .showCapability kind => (m.note (.capability (kind.bind i.capability?)), [.act v rest])
    | .park untilInterrupted =>
      (m, [.parked v.job untilInterrupted m.releases, .act v rest])
    | .choose next => (m, [.act v (next ⟨i.live, v.event, m.interrupted v.job⟩ ++ rest)])
    | .finish how => (m, leave v how.caught)

/-- What the outcome of a handler leads to, before it is recorded. -/
def conclude (m : Machine) (v : Invocation) (outcome : Outcome) : Machine × List Instr :=
  match outcome with
  | .completed => (m, [.record v outcome])
  | .eventAborted => (m.log .debug "event aborted", [.record v outcome])
  | .cancelled => (m.log .debug "event cancelled", [.record v outcome])
  | .selfDelete => (m, [.selfDelete v.id, .record v outcome])
  | .fault f => (m, [.showFault v f, .record v outcome])

def takeDeleteHook (m : Machine) : Machine × List Instr :=
  match m.deleteHooks with
  | [] => (m, [])
  | ops :: rest => ({ m with deleteHooks := rest }, Instr.nested ops)

def takeMessageHook (m : Machine) : Machine × List Instr :=
  match m.messageHooks with
  | [] => (m, [])
  | ops :: rest => ({ m with messageHooks := rest }, Instr.nested ops)

/-- A script that deletes its own entity: the flag goes up, then the world is asked. -/
def selfDelete (m : Machine) (id : Nat) (i : Instance) : Machine × List Instr :=
  let m := m.modify id fun i => { i with selfDeleting := true }
  match m.entity? i.localId with
  | none => (m.log .warn "self-delete requested but entity is gone", [])
  | some e =>
    let (m, hook) := (m.log .info "script deleting its own entity").takeDeleteHook
    (m, hook ++ [.deleted e])

def showFault (m : Machine) (i : Instance) (f : Fault) : Machine × List Instr :=
  let m := (m.count .fault).log .error "script runtime error"
  match m.entity? i.localId with
  | none => (m.log .warn "entity gone, runtime error not shown in-world", [])
  | some e =>
    let (m, hook) := m.takeMessageHook
    (m, hook ++ [.delivered (f.visibleText i.limits.errorMessageLimit) e])

/-- Whether a worker must leave a job alone for now: its script is executing further up, and the
turn would want it. -/
def mustWait (m : Machine) (owner : Nat) : Bool :=
  match m.get? owner with
  | some i =>
    i.holder == some .handler && match i.slot.queue.events with
      | [] => false
      | e :: _ => !e.isSetState
  | none => false

def run (m : Machine) (turns ran : Nat) : Machine × List Instr × Option Reply :=
  match turns, m.oldestQueued? with
  | 0, _ | _, none => (m, [], some (.ran ran false))
  | turns + 1, some n =>
    match m.job? n with
    | none => (m, [], some (.ran ran false))
    | some job =>
      if m.mustWait job.owner then (m, [], some (.ran ran true))
      else
        (m.setPhase n .running,
          [.takeTurn job.owner job.ticket n, .jobDone n, .run turns (ran + 1)], none)

/-! ## Saving and loading -/

/-- One section of a save. Success means that the store has something afterwards. -/
def save (m : Machine) (id : Nat) (i : Instance) : Saving → Machine × List Instr × Option Reply
  | .running => (m, [.save id (.state i.slot.running)], none)
  | .state running => (m, [.save id (.vars running i.state)], none)
  | .vars running state => (m, [.save id (.plugins running state i.vars)], none)
  | .plugins running state vars =>
    (m, [.save id (.queue running state vars ((m.exports.lookup i.item).getD []))], none)
  | .queue running state vars plugins =>
    (m, [.save id (.write ⟨state, running, vars, plugins, i.slot.queue.events, m.clock⟩)], none)
  | .write d =>
    let (m, failure) := m.write i.item d.encode
    (if failure.isSome then m.log .error "unable to write script state" else m,
      [.save id .verify], none)
  | .verify =>
    if m.store.holds i.item then (m.count (.save true), [], some .nothing)
    else
      ((m.count (.save false)).log .error "script state save failed", [],
        some (.failed (.stateNotPersisted i.item)))

def load (m : Machine) (l : Loading) : Machine × List Instr × Option Reply :=
  let localId := l.request.identity.localId
  match m.entity? localId with
  | none =>
    (m.log .error "entity unavailable, script not started", [],
      some (.failed (.entityNotFound localId)))
  | some e =>
    let id := m.instances.length
    let i := Instance.create l.request l.program l.limits
      (m.capabilities.instantiate l.request.identity e)
    ({ m with instances := m.instances ++ [i] }, [.recoverSize id l], none)

def startFresh (m : Machine) (id : Nat) (l : Loading) (path : String) : Machine × List Instr :=
  let m := m.count (.recovery path)
  let m := match path with
    | "oversized" => m.log .error "unable to load script state: memory limit exceeded"
    | "malformed" => m.log .error "unable to load script state"
    | _ => m
  (m, Instr.freshStart id l.request ++ Instr.finishLoad id l)

def recoverSize (m : Machine) (id : Nat) (i : Instance) (l : Loading) : Machine × List Instr :=
  match m.size i.item with
  | .ok none => m.startFresh id l "fresh"
  | .ok (some size) =>
    if i.limits.maxStateBytes ≤ size then m.startFresh id l "oversized"
    else (m, [.recoverRead id l])
  | .error _ => m.startFresh id l "malformed"

def recoverRead (m : Machine) (id : Nat) (i : Instance) (l : Loading) : Machine × List Instr :=
  match m.read i.item with
  | .error _ => m.startFresh id l "malformed"
  | .ok raw =>
    match Document.decode raw with
    | .error _ => m.startFresh id l "malformed"
    | .ok d =>
      (m.count (.recovery "restored"), Instr.restore id l.request d ++ Instr.finishLoad id l)

/-! ## Operations -/

/-- Load a script through the engine: an instance registered for the item is stopped first. -/
def loadReplacing (m : Machine) (l : Loading) : Machine × List Instr :=
  let item := l.request.identity.item
  match m.registered? item with
  | none => (m, [.load l])
  | some old =>
    ((m.unregister item).log .warn "replacing loaded script instance",
      [.stop old m.stopTimeout, .load l])

def removeScript (m : Machine) (item : Uuid) : Machine × List Instr :=
  match m.registered? item with
  | none => (m, [.answer (.flag false)])
  | some id =>
    (m.unregister item,
      [.stop id m.stopTimeout, .removeState id, .removePlugins id, .log .info "script removed",
        .answer (.flag true)])

/-- Replace the stored bytes of an item by themselves and blanks up to a length. -/
def padDocument (m : Machine) (item : Uuid) (more least : Nat) : Machine × Reply :=
  match m.store.read item with
  | .error e => (m, .failed e)
  | .ok data =>
    let size := max (data.length + more) least
    let padded := data ++ List.replicate (size - data.length) 32
    ({ m with store := m.store.put item padded }, .count size)

def storeReply (m : Machine) (item : Uuid) : StoreQuery → Machine × Reply
  | .exists => (m, .flag (m.store.holds item))
  | .size => (m, match m.size item with
    | .ok n => .size n
    | .error e => .failed e)
  | .read => (m, match m.read item with
    | .ok data => .bytes data
    | .error e => .failed e)
  | .remove =>
    let (m, failure) := m.remove item
    (m, match failure with
      | none => .nothing
      | some e => .failed e)

def metricCounts (m : Machine) : List (Metric × Nat) :=
  m.trace.foldl (fun counts n =>
    match n with
    | .count metric =>
      (metric, (counts.lookup metric).getD 0 + 1) :: counts.filter (·.1 != metric)
    | _ => counts) []

def onInstance (m : Machine) (id : Nat) (i : Instance) : Op → Machine × List Instr × Reply
  | .post _ e => (m, [.post id e], .nothing)
  | .setState _ s => (m, Instr.setState id s ++ [.answer .nothing], .nothing)
  | .start _ => (m, [.start id], .nothing)
  | .stop _ ms => (m, [.stop id ms, .answer (.flag true)], .nothing)
  | .reset _ => (m, [.reset id, .answer .nothing], .nothing)
  | .apiReset _ => (m, Instr.apiReset id ++ [.answer .nothing], .nothing)
  | .save _ => (m, [.save id .running], .nothing)
  | .removeState _ => (m, [.removeState id], .nothing)
  | .clearQueue _ => (m, [.clearQueue id], .nothing)
  | .setVars _ vars => (m, [.edit id (.setVars vars)], .nothing)
  | .setStartParam _ value =>
    (m.modify id fun i => { i with startParam := value }, [], .nothing)
  | .showVars _ => (m, [], .vars i.vars)
  | .showQueue _ => (m, [], .events i.slot.queue.events)
  | .showDetection _ index =>
    (m, [], .detection i.detected[index]? ((i.detected[index]?.map (·.key)).getD .nil))
  | .showCapability _ kind => (m, [], .capability (kind.bind i.capability?))
  | .showInfo _ => (m, [], .info i.info)
  | _ => (m, [], .unknown)

def target? : Op → Option String
  | .post target _ | .setState target _ | .start target | .stop target _ | .reset target
  | .apiReset target | .save target | .removeState target | .clearQueue target
  | .setVars target _ | .setStartParam target _ | .showVars target | .showQueue target
  | .showDetection target _ | .showCapability target _ | .showInfo target | .unknownOn target =>
    some target
  | _ => none

def onEngine (m : Machine) : Op → Machine × List Instr × Reply
  | .load name request program direct =>
    match direct with
    | some limits =>
      (m, [.load ⟨name, request, program, limits, false, m.named.length⟩], .nothing)
    | none =>
      let (m, next) := m.loadReplacing ⟨name, request, program, m.limits, true, m.named.length⟩
      (m, next, .nothing)
  | .postItem item e =>
    match m.registered? item with
    | some id => (m, [.post id e], .nothing)
    | none => (m, [], .failed (.other s!"no script instance for item {item.text}"))
  | .postObject localId e => (m, [.postEach (m.attachedTo localId) e 0], .nothing)
  | .remove item =>
    let (m, next) := m.removeScript item
    (m, next, .nothing)
  | .stopAll =>
    (m, (m.registered.map fun (_, id) => .stop id m.stopTimeout) ++ [.answer .nothing], .nothing)
  | .saveAll => (m, [.saveEach (m.registered.map (·.2)) none], .nothing)
  | .shutdown =>
    (m.log .info "shutting down script engine",
      [.shutdownEach (m.registered.map (·.2)) none], .nothing)
  | .showEngine => (m, [], .engine m.registered.length)
  | .showLoaded item => (m, [], .name ((m.registered? item).bind m.nameOf?))
  | .showOn localId =>
    let ids := m.attachedTo localId
    (m, [], .names ((m.named.filter fun (_, id) => ids.contains id).map (·.1)))
  | .run turns => (m, [.run turns 0], .nothing)
  | .showPool =>
    (m, [], .pool m.jobs.length (m.jobs.filter (·.phase == .queued)).length)
  | .entity e => (m.setEntity e, [], .nothing)
  | .noEntity localId => (m.removeEntity localId, [], .nothing)
  | .switch defect on =>
    ({ m with defects := if on then defect :: m.defects else m.defects.filter (· != defect) }, [],
      .nothing)
  | .onWait ops result => ({ m with waitHooks := m.waitHooks ++ [⟨ops, result⟩] }, [], .nothing)
  | .onMessage ops => ({ m with messageHooks := m.messageHooks ++ [ops] }, [], .nothing)
  | .onDelete ops => ({ m with deleteHooks := m.deleteHooks ++ [ops] }, [], .nothing)
  | .setExport item data =>
    ({ m with exports := (item, data) :: m.exports.filter (·.1 != item) }, [], .nothing)
  | .put item data padTo =>
    let padded := data ++ List.replicate (padTo - data.length) 32
    ({ m with store := m.store.put item padded }, [], .nothing)
  | .pad item more least =>
    let (m, reply) := m.padDocument item more least
    (m, [], reply)
  | .showDocument item =>
    (m, [], match m.read item with
      | .ok data => .document data
      | .error e => .failedKind e)
  | .store query item =>
    let (m, reply) := m.storeReply item query
    (m, [], reply)
  | .showMetrics => (m, [], .metrics m.metricCounts)
  | .release => ({ m with releases := m.releases + 1 }, [], .nothing)
  | _ => (m, [], .unknown)

def perform (m : Machine) (o : Op) : Machine × List Instr × Reply :=
  match target? o with
  | none => m.onEngine o
  | some name =>
    match m.named? name with
    | none => (m, [], .noInstance)
    | some id =>
      match m.get? id with
      | none => (m, [], .noInstance)
      | some i => m.onInstance id i o

end Machine

namespace Instr

/-- Whether a section has to wait for another thread. -/
def blocked (m : Machine) : Instr → Bool
  | .lockScript v =>
    match m.get? v.id with
    | some i => i.held
    | none => false
  | .parked job untilInterrupted releases =>
    m.releases == releases && !(untilInterrupted && m.interrupted job)
  | _ => false

def plain (m : Machine) (reply : Reply) : Done := ⟨m, [], reply⟩

def about (m : Machine) (reply : Reply) (id : Nat) (f : Instance → Machine) : Done :=
  match m.get? id with
  | some i => plain (f i) reply
  | none => plain m reply

def leads (m : Machine) (reply : Reply) (id : Nat) (f : Instance → Machine × List Instr) : Done :=
  match m.get? id with
  | some i => ⟨(f i).1, (f i).2, reply⟩
  | none => plain m reply

/-- What an error found by many saves is answered with. -/
def firstFailure : Option Error → Reply
  | none => .nothing
  | some e => .failedKind e

/-- Do one section, `reply` being the answer set last. -/
def exec (m : Machine) (reply : Reply) : Instr → Done
  | .op o =>
    let (m, next, reply) := m.perform o
    ⟨m, next, reply⟩
  | .noteBegin o => plain (m.note (.began o)) reply
  | .noteReply => plain (m.note (.op reply)) reply
  | .answer r => plain m r
  | .log level message => plain (m.log level message) reply
  | .count metric => plain (m.count metric) reply
  | .start id => about m reply id (m.start id)
  | .stop id ms => leads m reply id fun i =>
    let (m, turn) := m.beginStop id i
    (m, match turn with
      | some turn => [.stopWait id ms turn]
      | none => [])
  | .stopWait id ms turn =>
    let m := m.note (.wait turn.job ms)
    match m.waitHooks with
    | [] => ⟨m, [.stopWaited id ms turn none], reply⟩
    | hook :: rest =>
      ⟨{ m with waitHooks := rest }, nested hook.ops ++ [.stopWaited id ms turn hook.result],
        reply⟩
  | .stopWaited id ms turn forced =>
    if forced.getD (m.finished turn.job) then plain m reply
    else ⟨m, [.stopCheck id ms turn], reply⟩
  | .stopCheck id _ turn => leads m reply id fun i =>
    (m, if i.owns turn.ticket then [.stopAbort id turn, .stopEnd id turn] else [])
  | .stopAbort id turn => about m reply id fun i => m.forceAbort i turn
  | .stopEnd id turn => about m reply id fun i => m.endStop id i turn
  | .post id e =>
    match m.get? id with
    | some i =>
      let (m, posting) := m.post id i e
      plain m (.posting posting)
    | none => plain m reply
  | .clearQueue id => plain (m.modify id fun i => i.setQueue i.slot.queue.clear) reply
  | .edit id e => leads m reply id fun i =>
    (m.edit id i e, if i.keepsEdits then [] else [.letGo id .edit])
  | .replaceState id state => plain (m.modify id fun i => { i with state := state }) reply
  | .clearPermissions id =>
    about m reply id fun i => m.note (.clearPermissions i.localId i.item)
  | .removePlugins id => about m reply id fun i => m.note (.removePlugins i.localId i.item)
  | .removeState id => about m reply id fun i =>
    let (m, failure) := m.remove i.item
    if failure.isSome then m.log .debug "state removal failed, ignoring" else m
  | .publishMask id => leads m reply id fun i =>
    (m.publishMask id i, if i.held then [] else [.letGo id .mask])
  | .letGo id e => plain (m.modify id (·.letGo e)) reply
  | .reset id => leads m reply id fun i =>
    (m.log .info "resetting script", resetAll id i.slot.running)
  | .stateEntryUnlessCurrent id => leads m reply id fun i =>
    (m, if i.currentEvent == some "state_entry" then [] else [.post id .stateEntry])
  | .save id s =>
    match m.get? id with
    | some i =>
      let (m, next, answered) := m.save id i s
      ⟨m, next, answered.getD reply⟩
    | none => plain m reply
  | .saveEach [] first | .shutdownEach [] first => plain m (firstFailure first)
  | .saveEach (id :: rest) first => ⟨m, [.save id .running, .saved rest first false], reply⟩
  | .shutdownEach (id :: rest) first => leads m reply id fun i =>
    (m, [.stop id m.stopTimeout, .save id (.state i.slot.running), .saved rest first true])
  | .saved rest first shutdown =>
    let first := match first, reply with
      | none, .failed e => some e
      | first, _ => first
    ⟨m, [if shutdown then .shutdownEach rest first else .saveEach rest first], reply⟩
  | .load l =>
    let (m, next, answered) := m.load l
    ⟨m, next, answered.getD reply⟩
  | .recoverSize id l => leads m reply id fun i => m.recoverSize id i l
  | .recoverRead id l => leads m reply id fun i => m.recoverRead id i l
  | .importData id data => about m reply id fun i =>
    m.note (.importData i.localId i.item i.identity.object data)
  | .refill id events =>
    plain (m.modify id fun i => i.setQueue (i.slot.queue.pushAll events)) reply
  | .register id => about m reply id fun i =>
    (m.register i.item id).log .info "script loaded"
  | .loaded id name place => plain (m.enlist name id place) .loaded
  | .postEach [] _ accepted => plain m (.count accepted)
  | .postEach (id :: rest) e accepted => ⟨m, [.post id e, .posted rest e accepted], reply⟩
  | .posted rest e accepted =>
    let accepted := match reply with
      | .posting .accepted => accepted + 1
      | _ => accepted
    ⟨m, [.postEach rest e accepted], reply⟩
  | .run turns ran =>
    let (m, next, answered) := m.run turns ran
    ⟨m, next, answered.getD reply⟩
  | .takeTurn id ticket job => leads m reply id fun i => m.takeTurn id i ticket job
  | .readDetected v => leads m reply v.id fun i =>
    (m, [.lockScript { v with detected := i.detected }])
  | .lockScript v =>
    ⟨m.modify v.id fun i => { i with holder := some .handler }, [.settle v.id, .enter v], reply⟩
  | .settle id => plain (m.settle id) reply
  | .enter v => leads m reply v.id fun i => m.enter i v
  | .act v actions => leads m reply v.id fun i => m.act i v actions
  | .parked _ _ _ => plain m reply
  | .unlock id => plain (m.modify id fun i => { i with holder := none }) reply
  | .applyRequests v outcome => leads m reply v.id fun i =>
    if i.owns v.ticket then
      (m, v.requests.flatMap (request v.id) ++ [.conclude v outcome])
    else
      (if v.requests.isEmpty then m else m.log .debug "requests from an aborted event dropped",
        [.conclude v outcome])
  | .conclude v outcome =>
    let (m, next) := m.conclude v outcome
    ⟨m, next, reply⟩
  | .selfDelete id => leads m reply id fun i => m.selfDelete id i
  | .deleted e =>
    plain (if m.has .refuseDelete then m.log .error "self-delete failed"
      else m.note (.delete e.id)) reply
  | .showFault v f => leads m reply v.id fun i => m.showFault i f
  | .delivered text e =>
    plain (if m.has .refuseMessages then
        m.log .error "error displaying runtime error in-world"
      else m.note (.message text Int32.maxValue e.position e.name e.id)) reply
  | .record v outcome => about m reply v.id fun i =>
    ((m.note (.span i.item v.event.name v.state outcome.status)).count
      (.executed outcome.status)).count (.duration v.event.name)
  | .finishTurn id ticket => about m reply id fun i => m.finishTurn id i ticket
  | .jobDone job => plain (m.setPhase job .done) reply

end Instr

/-- A thread: what it has still to do, and the answer set last. -/
structure Thread where
  agenda : List Instr
  reply : Reply
  deriving Inhabited

namespace Thread

def ofOp (o : Op) : Thread := ⟨[.op o], .nothing⟩

def ofJob (owner ticket job : Nat) : Thread :=
  ⟨[.takeTurn owner ticket job, .jobDone job], .nothing⟩

def isDone (t : Thread) : Bool := t.agenda.isEmpty

def canMove (m : Machine) (t : Thread) : Bool :=
  match t.agenda with
  | [] => false
  | i :: _ => !i.blocked m

/-- Do the first section of a thread, if it has one that need not wait. -/
def step? (m : Machine) (t : Thread) : Option (Machine × Thread) :=
  match t.agenda with
  | [] => none
  | i :: rest =>
    if i.blocked m then none
    else
      let d := i.exec m t.reply
      some (d.machine, ⟨d.next ++ rest, d.reply⟩)

def run : Nat → Machine → Thread → Machine × Thread
  | 0, m, t => (m, t)
  | fuel + 1, m, t =>
    match t.step? m with
    | none => (m, t)
    | some (m, t) => run fuel m t

end Thread

end ScriptHost
