import ScriptHost.Proofs.Engine.Conduct
import ScriptHost.Proofs.Model.Queue

/-!
# What a restored document leaves

An instance is made, is given its document, starts and is greeted. How far this
has come, and what has been asked of the pool and of the plugins meanwhile, is
told by `Machine.SetUp`: a turn is asked for exactly when the instance runs with
events queued, once, whichever of the sections it was that brought this about.
So nothing of the document that a load finds is lost but what the queue has no
room for (`Machine.restores_document`).
-/

namespace ScriptHost

/-- The job that a note says the pool was asked for. -/
def Note.dispatch? : Note → Option Nat
  | .dispatch job => some job
  | _ => none

/-- Plugin data given to a script. -/
structure PluginImport where
  localId : UInt32
  item : Uuid
  entity : Uuid
  data : Bytes

def Note.import? : Note → Option PluginImport
  | .importData localId item entity data => some ⟨localId, item, entity, data⟩
  | _ => none

namespace Machine

/-- The jobs that the pool was asked for, the latest first. -/
def dispatches (m : Machine) : List Nat := m.trace.filterMap Note.dispatch?

/-- The plugin data that scripts were given, the latest first. -/
def imports (m : Machine) : List PluginImport := m.trace.filterMap Note.import?

/-- The pool has been asked for a turn. -/
structure Asked (N N' : Machine) (id : Nat) (i : Instance) : Prop where
  here : N'.get? id = some (i.occupy (N.jobs.length + 1))
  jobs : N'.jobs = N.jobs ++ [⟨id, i.slot.lastTicket + 1, .queued, false⟩]
  dispatches : N'.dispatches = (N.jobs.length + 1) :: N.dispatches
  imports : N'.imports = N.imports

theorem requestTurn_of_get? {N : Machine} {id : Nat} {i : Instance} (h : N.get? id = some i) :
    N.Asked (N.requestTurn id) id i := by
  unfold requestTurn
  rw [h]
  refine ⟨?_, rfl, rfl, rfl⟩
  have here : ({ N with jobs := N.jobs ++ [⟨id, i.slot.lastTicket + 1, .queued, false⟩] }
    : Machine).get? id = some i := h
  exact (get?_modify_self _).trans (by rw [here]; rfl)

/-- An instance is being set up that was not there on `m`; `data` is what the plugins have been
given for it. -/
structure SetUp (m N : Machine) (who : Identity) (id : Nat) (i : Instance) (data : List Bytes) :
    Prop where
  here : N.get? id = some i
  identity : i.identity = who
  unheld : i.held = false
  level : i.live = i.vars
  current : i.slot.current = if i.slot.hasWork then some ⟨1, m.jobs.length + 1⟩ else none
  ticket : i.slot.lastTicket = if i.slot.hasWork then 1 else 0
  jobs : N.jobs = m.jobs ++ if i.slot.hasWork then [⟨id, 1, .queued, false⟩] else []
  dispatches : N.dispatches =
    (if i.slot.hasWork then [m.jobs.length + 1] else []) ++ m.dispatches
  imports : N.imports =
    data.map (fun d => ⟨who.localId, who.item, who.object, d⟩) ++ m.imports

namespace SetUp

variable {m N : Machine} {id : Nat} {i : Instance} {data : List Bytes} {who : Identity}

theorem amid (U : m.SetUp N who id i data) (c : Conduct) : m.SetUp (N.amid c) who id i data :=
  ⟨U.here, U.identity, U.unheld, U.level, U.current, U.ticket, U.jobs, U.dispatches, U.imports⟩

theorem note (U : m.SetUp N who id i data) {n : Note} (hd : n.dispatch? = none)
    (hi : n.import? = none) : m.SetUp (N.note n) who id i data := by
  refine ⟨U.here, U.identity, U.unheld, U.level, U.current, U.ticket, U.jobs, ?_, ?_⟩
  · rw [← U.dispatches]; simp [Machine.dispatches, Machine.note, hd]
  · rw [← U.imports]; simp [Machine.imports, Machine.note, hi]

theorem get?_modify (U : m.SetUp N who id i data) (f : Instance → Instance) :
    (N.modify id f).get? id = some (f i) := by
  rw [get?_modify_self, U.here]; rfl

/-- A change that leaves it open as before whether there is work. -/
theorem modify (U : m.SetUp N who id i data) {f : Instance → Instance}
    (same : (f i).identity = i.identity) (held : (f i).held = i.held)
    (level : (f i).live = (f i).vars)
    (current : (f i).slot.current = i.slot.current)
    (ticket : (f i).slot.lastTicket = i.slot.lastTicket)
    (work : (f i).slot.hasWork = i.slot.hasWork) : m.SetUp (N.modify id f) who id (f i) data := by
  refine ⟨U.get?_modify f, same.trans U.identity, held.trans U.unheld, level, ?_, ?_, ?_, ?_,
    U.imports⟩
  · rw [current, work]; exact U.current
  · rw [ticket, work]; exact U.ticket
  · rw [work]; exact U.jobs
  · rw [work]; exact U.dispatches

/-- A change after which there is work where there was none, and the request for a turn. -/
theorem asks (U : m.SetUp N who id i data) {f : Instance → Instance}
    (same : (f i).identity = i.identity) (held : (f i).held = i.held)
    (level : (f i).live = (f i).vars)
    (ticket : (f i).slot.lastTicket = i.slot.lastTicket)
    (idle : i.slot.hasWork = false) (work : (f i).slot.hasWork = true) :
    m.SetUp ((N.modify id f).requestTurn id) who id
      ((f i).occupy (m.jobs.length + 1)) data := by
  have first : (f i).slot.lastTicket = 0 := by
    rw [ticket, U.ticket, idle]; rfl
  have jobs : (N.modify id f).jobs = m.jobs := by
    refine U.jobs.trans ?_
    rw [idle, if_neg Bool.false_ne_true, List.append_nil]
  have dispatches : (N.modify id f).dispatches = m.dispatches := by
    refine U.dispatches.trans ?_
    rw [idle, if_neg Bool.false_ne_true, List.nil_append]
  obtain ⟨here, added, noted, given⟩ := requestTurn_of_get? (U.get?_modify f)
  rw [jobs, first] at added
  rw [jobs, dispatches] at noted
  rw [jobs] at here
  have works : ((f i).occupy (m.jobs.length + 1)).slot.hasWork = true := work
  refine ⟨here, same.trans U.identity, held.trans U.unheld, level, ?_, ?_, ?_, ?_,
    given.trans U.imports⟩
  · rw [works, if_pos rfl, ← Nat.zero_add 1, ← first]; rfl
  · rw [works, if_pos rfl, ← Nat.zero_add 1, ← first]; rfl
  · rw [works, added]; rfl
  · rw [works, noted]; rfl

/-- Where there is no work, no turn is outstanding, and the other way round. -/
theorem isNone (U : m.SetUp N who id i data) : i.slot.current.isNone = !i.slot.hasWork := by
  rw [U.current]
  cases i.slot.hasWork <;> rfl

theorem start (U : m.SetUp N who id i data) (stopped : i.slot.running = false) :
    ∃ j, m.SetUp (N.start id i) who id j data ∧
      j.figure = { i.figure with running := true } := by
  have idle : i.slot.hasWork = false := by simp [Slot.hasWork, stopped]
  unfold Machine.start
  rw [if_neg (by simp [stopped])]
  cases hq : i.slot.queue.isEmpty with
  | true =>
    refine ⟨_, U.modify (f := (·.setRunning true)) rfl rfl U.level rfl rfl ?_, rfl⟩
    simp [Slot.hasWork, Instance.setRunning, hq]
  | false =>
    simp only [Bool.false_eq_true, if_false, U.isNone, idle, Bool.not_false, if_true]
    refine ⟨_, U.asks (f := (·.setRunning true)) rfl rfl U.level rfl idle ?_, rfl⟩
    simp [Slot.hasWork, Instance.setRunning, hq]

theorem post (U : m.SetUp N who id i data) (e : Event) :
    ∃ j, m.SetUp (N.post id i e).1 who id j data ∧ j.figure = i.figure.post e := by
  unfold Machine.post
  cases hr : i.slot.running with
  | false =>
    exact ⟨i, U.note rfl rfl, by simp [Figure.post, Instance.figure, hr]⟩
  | true =>
    simp only [Bool.not_true, Bool.false_eq_true, if_false, U.isNone]
    have posted : (i.setQueue (i.slot.queue.push e).1).figure = i.figure.post e := by
      simp [Figure.post, Instance.figure, Instance.setQueue, hr]
    cases ha : (i.slot.queue.push e).2.isAccepted with
    | false =>
      simp only [Bool.false_and, Bool.false_eq_true, if_false]
      refine ⟨_, (U.modify (f := (·.setQueue (i.slot.queue.push e).1)) rfl rfl U.level rfl rfl
        ?_).note rfl rfl, posted⟩
      rw [Slot.push_of_refused ha]
      rfl
    | true =>
      have work : (i.setQueue (i.slot.queue.push e).1).slot.hasWork = true := by
        simp [Slot.hasWork, Instance.setQueue, hr, Slot.push_of_accepted ha, Queue.isEmpty]
      cases hw : i.slot.hasWork with
      | false =>
        simp only [Bool.not_false, Bool.and_self, if_true]
        exact ⟨_, (U.asks (f := (·.setQueue (i.slot.queue.push e).1)) rfl rfl U.level rfl hw
          work).note rfl rfl, posted⟩
      | true =>
        simp only [Bool.not_true, Bool.and_false, Bool.false_eq_true, if_false]
        exact ⟨_, (U.modify (f := (·.setQueue (i.slot.queue.push e).1)) rfl rfl U.level rfl rfl
          (work.trans hw.symm)).note rfl rfl, posted⟩

/-- What a post to an instance that runs is answered with. -/
theorem reply_post (U : m.SetUp N who id i data) (runs : i.slot.running = true) (e : Event)
    (r : Reply) :
    ((Instr.post id e).exec N r).reply = .posting (i.slot.queue.push e).2 := by
  simp only [Instr.exec, U.here, Instr.plain, Machine.post, runs, Bool.not_true,
    Bool.false_eq_true, if_false]

end SetUp

end Machine

namespace Figure

/-- An instance of the figure `f` that is being set up comes by these sections to the figure `g`, and
the plugins are given `data`, the latest first. -/
def Sets (f : Figure) (l : Nat → List Instr) (data : List Bytes) (g : Figure) : Prop :=
  ∀ (m N : Machine) (who : Identity) (id : Nat) (i : Instance) (before : List Bytes),
    m.SetUp N who id i before → i.figure = f →
    ∃ j, m.SetUp (N.after (l id)) who id j (data ++ before) ∧ j.figure = g

namespace Sets

variable {f g h : Figure} {l l' : Nat → List Instr} {data data' : List Bytes}

theorem nil : f.Sets (fun _ => []) [] f := fun _ _ _ _ _ _ U e => ⟨_, U, e⟩

theorem append (first : f.Sets l data g) (second : g.Sets l' data' h) :
    f.Sets (fun id => l id ++ l' id) (data' ++ data) h := by
  intro m N who id i before U e
  obtain ⟨j, U, e⟩ := first _ _ _ _ _ _ U e
  obtain ⟨j, U, e⟩ := second _ _ _ _ _ _ U e
  refine ⟨j, ?_, e⟩
  rw [Machine.after_append, List.append_assoc]
  exact U

/-- A section that only notes what is neither asked of the pool nor given to plugins. -/
theorem noting {a : Nat → Instr} (n : Machine → Instance → Note)
    (e : ∀ {N : Machine} {id i}, N.get? id = some i → i.held = false →
      N.through (a id) = N.note (n N i))
    (dispatch : ∀ N i, (n N i).dispatch? = none) (plugins : ∀ N i, (n N i).import? = none) :
    f.Sets (fun id => [a id]) [] f := by
  intro m N who id i before U same
  refine ⟨i, ?_, same⟩
  have : N.after [a id] = N.note (n N i) := e U.here U.unheld
  rw [this]
  exact U.note (dispatch N i) (plugins N i)

/-- A section that changes the instance, but neither its slot's turn nor whether there is work. -/
theorem changing {a : Nat → Instr} (c : Instance → Instance)
    (e : ∀ {N : Machine} {id i}, N.get? id = some i → i.held = false →
      N.through (a id) = N.modify id c)
    (same : ∀ i, (c i).identity = i.identity)
    (held : ∀ i, i.held = false → (c i).held = i.held)
    (level : ∀ i, i.held = false → i.live = i.vars → (c i).live = (c i).vars)
    (current : ∀ i, (c i).slot.current = i.slot.current)
    (ticket : ∀ i, (c i).slot.lastTicket = i.slot.lastTicket)
    (work : ∀ i, i.figure = f → (c i).slot.hasWork = i.slot.hasWork)
    (figure : ∀ i, i.held = false → i.figure = f → (c i).figure = g) :
    f.Sets (fun id => [a id]) [] g := by
  intro m N who id i before U is
  refine ⟨c i, ?_, figure i U.unheld is⟩
  have : N.after [a id] = N.modify id c := e U.here U.unheld
  rw [this]
  exact U.modify (same i) (held i U.unheld) (level i U.unheld U.level) (current i) (ticket i)
    (work i is)

theorem replaceState (state : String) :
    f.Sets (fun id => [.replaceState id state]) [] { f with state := state } :=
  changing (fun i => { i with state := state }) (fun _ _ => rfl) (fun _ => rfl) (fun _ _ => rfl)
    (fun _ _ h => h) (fun _ => rfl) (fun _ => rfl) (fun _ _ => rfl)
    (fun _ _ e => by rw [← e]; rfl)

theorem setVars (vars : Vars) : f.Sets (fun id => [.edit id (.setVars vars)]) []
    { f with vars := f.program.retain vars } := by
  have slot : ∀ i : Instance, ((i.edit (.setVars vars)).letGo .edit).slot = i.slot := fun i =>
    Machine.edit_slot i _
  refine changing (fun i => (i.edit (.setVars vars)).letGo .edit) ?_
    (fun i => Machine.edit_identity i _) (fun i hi => ?_) (fun i hi _ => ?_)
    (fun i => by rw [slot]) (fun i => by rw [slot]) (fun i _ => by rw [slot]) (fun i hi e => ?_)
  · intro N id i here unheld
    have applies := Instance.keepsEdits_of_unheld unheld
    have machine : ((Instr.edit id (.setVars vars)).exec N .nothing).machine =
        N.modify id (·.edit (.setVars vars)) := by
      simp only [Instr.exec, Instr.leads, here, Machine.edit, applies, Bool.false_eq_true, if_false]
    have next : ((Instr.edit id (.setVars vars)).exec N .nothing).next = [.letGo id .edit] := by
      simp only [Instr.exec, Instr.leads, here, applies, Bool.false_eq_true, if_false]
    rw [Machine.through_letGo next, machine, Machine.modify_modify]
  · rw [Instance.letGo_edit hi]
    rfl
  · rw [Instance.letGo_edit hi]
  · rw [Instance.letGo_edit hi, ← e]
    rfl

theorem importData (data : Bytes) : f.Sets (fun id => [.importData id data]) [data] f := by
  intro m N who id i before U same
  refine ⟨i, ?_, same⟩
  have : N.after [.importData id data] =
      N.note (.importData who.localId who.item who.object data) := by
    rw [← U.identity]
    rw [show N.after [.importData id data] = ((Instr.importData id data).exec N .nothing).machine
      from Machine.through_of_next Instr.next_about]
    simp only [Instr.exec, Instr.about, U.here, Instr.plain]
    rfl
  rw [this]
  exact ⟨U.here, U.identity, U.unheld, U.level, U.current, U.ticket, U.jobs, U.dispatches,
    congrArg (_ :: ·) U.imports⟩

/-- Events that are put back do not count as work before the instance runs. -/
theorem refill (stopped : f.running = false) (events : List Event) :
    f.Sets (fun id => [.refill id events]) [] { f with queue := f.queue.pushAll events } :=
  changing (fun i => i.setQueue (i.slot.queue.pushAll events)) (fun _ _ => rfl) (fun _ => rfl)
    (fun _ _ => rfl) (fun _ _ h => h) (fun _ => rfl) (fun _ => rfl)
    (fun i e => by
      have : i.slot.running = false := (congrArg Figure.running e).trans stopped
      simp [Slot.hasWork, Instance.setQueue, this])
    (fun _ _ e => by rw [← e]; rfl)

theorem log (level : Level) (message : String) : f.Sets (fun _ => [.log level message]) [] f :=
  noting (fun _ _ => .log level message) (fun _ _ => rfl) (fun _ _ => rfl) (fun _ _ => rfl)

theorem publishMask : f.Sets (fun id => [.publishMask id]) [] f := by
  refine noting (fun _ i => .mask i.localId i.item (i.program.mask i.state)) ?_ (fun _ _ => rfl)
    fun _ _ => rfl
  intro N id i here unheld
  have machine : ((Instr.publishMask id).exec N .nothing).machine =
      (N.sendMask i).modify id Instance.publish := by
    simp only [Instr.exec, Instr.leads, here, Machine.publishMask, unheld, Bool.false_eq_true,
      if_false]
  have next : ((Instr.publishMask id).exec N .nothing).next = [.letGo id .mask] := by
    simp only [Instr.exec, Instr.leads, here, unheld, Bool.false_eq_true, if_false]
  rw [Machine.through_letGo next, machine, Machine.modify_modify]
  exact Machine.modify_of_get? here (Instance.letGo_publish unheld)

/-- The registry and the names are no part of what is set up. -/
theorem register : f.Sets (fun id => [.register id]) [] f := by
  intro m N who id i before U same
  refine ⟨i, ?_, same⟩
  have : N.after [.register id] = (N.register i.item id).note (.log .info "script loaded") := by
    rw [show N.after [.register id] = ((Instr.register id).exec N .nothing).machine
      from Machine.through_of_next Instr.next_about]
    simp only [Instr.exec, Instr.about, U.here, Instr.plain]
    rfl
  rw [this]
  exact Machine.SetUp.note (N := N.register i.item id) ⟨U.here, U.identity, U.unheld, U.level,
    U.current, U.ticket, U.jobs, U.dispatches, U.imports⟩ rfl rfl

theorem loaded (name : String) (place : Nat) : f.Sets (fun id => [.loaded id name place]) [] f :=
  fun _ _ _ _ _ _ U same => ⟨_, ⟨U.here, U.identity, U.unheld, U.level, U.current, U.ticket, U.jobs,
    U.dispatches, U.imports⟩, same⟩

theorem start (stopped : f.running = false) :
    f.Sets (fun id => [.start id]) [] { f with running := true } := by
  rintro m N who id i before U rfl
  have : N.after [.start id] = N.start id i := by
    rw [show N.after [.start id] = ((Instr.start id).exec N .nothing).machine
      from Machine.through_of_next Instr.next_about]
    simp only [Instr.exec, Instr.about, U.here, Instr.plain]
  rw [this]
  exact U.start stopped

theorem post (e : Event) : f.Sets (fun id => [.post id e]) [] (f.post e) := by
  rintro m N who id i before U rfl
  have : N.after [.post id e] = (N.post id i e).1 := by
    have next : ((Instr.post id e).exec N .nothing).next = [] := by
      simp only [Instr.exec, U.here, Instr.plain]
    rw [show N.after [.post id e] = ((Instr.post id e).exec N .nothing).machine
      from Machine.through_of_next next]
    simp only [Instr.exec, U.here, Instr.plain]
  rw [this]
  exact U.post e

theorem posts (l : List Event) :
    f.Sets (fun id => l.map (.post id)) [] (l.foldl Figure.post f) := by
  induction l generalizing f with
  | nil => exact nil
  | cons e l ih => exact (post e).append ih

end Sets

theorem sets_freshStart {f : Figure} (stopped : f.running = false) (q : LoadRequest) :
    ∃ g, f.Sets (fun id => Instr.freshStart id q) [] g := by
  have all := (Sets.start stopped).append
    (.posts (.stateEntry :: if q.postOnRez then [.onRez q.startParam] else []))
  simp only [← Instr.freshStart_eq] at all
  exact ⟨_, all⟩

theorem sets_finishLoad {f : Figure} (l : Loading) :
    f.Sets (fun id => Instr.finishLoad id l) [] f := by
  have registered : f.Sets (fun id => if l.registers then [.register id] else []) [] f := by
    split
    · exact .register
    · exact .nil
  exact (Sets.publishMask.append registered).append (.loaded l.name l.place)

theorem sets_restore {f : Figure} (stopped : f.running = false) (q : LoadRequest) (d : Document) :
    f.Sets (fun id => Instr.restore id q d) (if d.pluginData.isEmpty then [] else [d.pluginData])
      ((q.greetings d).foldl post (f.restored d)) := by
  have plugins : ∀ g : Figure, g.Sets
      (fun id => if d.pluginData.isEmpty then [] else [.importData id d.pluginData])
      (if d.pluginData.isEmpty then [] else [d.pluginData]) g := by
    intro g
    split
    · exact .nil
    · exact .importData _
  have up : ∀ g : Figure, g.running = false → g.Sets
      (fun id => if d.running then [.start id] else []) [] { g with running := d.running } := by
    intro g hg
    cases d.running with
    | true => exact .start hg
    | false =>
      have : { g with running := false } = g := by rw [← hg]
      rw [this]
      exact .nil
  let named : Figure := { f with state := d.state }
  let edited : Figure := { named with vars := f.program.retain d.vars }
  let filled : Figure := { edited with queue := f.queue.pushAll d.queue }
  have edit : named.Sets (fun id => [.edit id (.setVars d.vars)]) [] edited := .setVars _
  have refill : edited.Sets (fun id => [.refill id d.queue]) [] filled :=
    .refill (f := edited) stopped d.queue
  have all := (Sets.replaceState (f := f) d.state).append (edit.append ((plugins edited).append
    (refill.append ((Sets.log .debug "retrieved script state").append
      ((up filled stopped).append (.posts (q.greetings d)))))))
  have e : ∀ id, Instr.restore id q d = [Instr.replaceState id d.state] ++
      ([Instr.edit id (.setVars d.vars)] ++
        ((if d.pluginData.isEmpty then [] else [Instr.importData id d.pluginData]) ++
          ([Instr.refill id d.queue] ++ ([Instr.log .debug "retrieved script state"] ++
            ((if d.running then [Instr.start id] else []) ++
              (q.greetings d).map (Instr.post id)))))) := by
    intro id
    rw [Instr.restore_eq]
    simp [Instr.restore]
  simp only [← e, List.append_nil] at all
  exact all

end Figure

namespace Machine

/-- An instance that has just been made is set up, whatever has been noted but what is asked of the
pool and of plugins. -/
theorem SetUp.of_made {m N : Machine} {l : Loading} {e : Entity}
    (instances : N.instances = (m.made (m.newcomer l e)).instances) (jobs : N.jobs = m.jobs)
    (dispatches : N.dispatches = m.dispatches) (imports : N.imports = m.imports) :
    m.SetUp N l.request.identity m.instances.length (m.newcomer l e) [] := by
  refine ⟨?_, rfl, rfl, rfl, rfl, rfl, ?_, dispatches, imports⟩
  · simp [get?, instances, made]
  · rw [jobs]
    exact (List.append_nil _).symm

@[simp] theorem recoveries_amid (m : Machine) (c : Conduct) :
    (m.amid c).recoveries = m.recoveries := rfl

theorem recoveries_after {l : List Instr} (h : ∀ a ∈ l, a.settling = true) (m : Machine) :
    (m.after l).recoveries = m.recoveries := by
  induction l generalizing m with
  | nil => rfl
  | cons a l ih =>
    have settling := h a List.mem_cons_self
    refine (ih (fun b hb => h b (List.mem_cons_of_mem _ hb)) _).trans ?_
    have noted := (Instr.quiet_of_settling settling).recoveries m .nothing
    rcases Instr.next_of_settling settling m .nothing with hn | ⟨id, e, hn⟩
    · rw [through_of_next hn, noted]
    · rw [through_letGo hn, recoveries_modify, noted]

end Machine

/-- What a load makes of a document: the variables are those that the program keeps of the
document's, and the queue is what fits of the document's and, if the instance runs, of the greetings
after it, every timer after the first left out. -/
structure Instance.Restored (i : Instance) (l : Loading) (d : Document) : Prop where
  state : i.state = d.state
  live : i.live = l.program.retain d.vars
  vars : i.vars = l.program.retain d.vars
  running : i.slot.running = d.running
  event : i.currentEvent = none
  queue : i.slot.queue.events =
    (Queue.onceTimed (d.queue ++ if d.running then l.request.greetings d else [])).take
      l.limits.queueCapacity

namespace Machine

/-- A load finds a document that decodes and is below the limit. The load comes to its end without
an error, has noted that it restored the document, and has set the instance up so. -/
theorem sets_up_document {m : Machine} {c : Nat → Conduct} {l : Loading} {d : Document}
    {e : Entity} (known : m.entity? l.request.identity.localId = some e) (finds : m.Finds c l d)
    (r : Reply) :
    ∃ course M i, Thread.Ends c 0 m ⟨[.load l], r⟩ course M .loaded ∧
      M.recoveries = "restored" :: m.recoveries ∧
      m.SetUp M l.request.identity m.instances.length i
        (if d.pluginData.isEmpty then [] else [d.pluginData]) ∧
      i.Restored l d ∧ i.slot.queue.Lawful ∧
      i.slot.queue.capacity = l.limits.queueCapacity := by
  let id := m.instances.length
  let f := (m.newcomer l e).figure
  let N := ((m.made (m.newcomer l e)).amid (c 2)).count (.recovery "restored")
  have new : m.SetUp N l.request.identity id (m.newcomer l e) [] := .of_made rfl rfl rfl rfl
  obtain ⟨i, U, figure⟩ := (Figure.sets_restore (f := f) rfl l.request d).append
    (Figure.sets_finishLoad l) _ _ _ _ _ _ new rfl
  obtain ⟨before, reaches⟩ := Thread.Comes.restores (r := r) known finds
  obtain ⟨_, c', ends⟩ := Thread.Ends.finishes (c := c) (k := 3) (m := N) (r := r)
    (Instr.settling_restore id l.request d) l
  replace U := U.amid c'
  simp only [List.nil_append, List.append_nil] at U
  have noted : ((N.after (Instr.restore id l.request d ++ Instr.finishLoad id l)).amid
      c').recoveries = "restored" :: m.recoveries := by
    rw [recoveries_amid, recoveries_after, recoveries_recovery]
    · rfl
    · intro a ha
      rcases List.mem_append.mp ha with ha | ha
      · exact Instr.settling_restore _ _ _ a ha
      · exact Instr.settling_finishLoad _ _ a ha
  -- What the document and the greetings come to.
  rw [Figure.posts_eq] at figure
  have made : i.figure = ⟨l.program, d.state, d.running, l.program.retain d.vars,
      (Queue.empty l.limits.queueCapacity).pushAll
        (d.queue ++ if d.running then l.request.greetings d else []), none, false⟩ := by
    rw [figure]
    cases hr : d.running <;> simp [Figure.restored, hr, Queue.pushAll_append, f,
      Machine.newcomer, Instance.create, Instance.figure]
  have queue : i.slot.queue = _ := congrArg Figure.queue made
  refine ⟨_, _, i, reaches _ _ _ ends, noted, U, ⟨congrArg Figure.state made,
    U.level.trans (congrArg Figure.vars made), congrArg Figure.vars made,
    congrArg Figure.running made, congrArg Figure.event made, ?_⟩, ?_, ?_⟩
  · rw [queue, Queue.events_pushAll (Nat.zero_le _)]
    rfl
  · rw [queue]
    exact (Queue.lawful_empty _).pushAll
  · rw [queue]
    exact Queue.capacity_pushAll

/-- A load finds a document that decodes and is below the limit. The load comes to its end without
an error, and the instance has the state, the variables and the running flag of the document, the
variables as far as the program keeps what it is given. Its queue is what fits of the document's
queue and, if it runs, of the greetings after it, every timer after the first left out. The pool was
asked for a turn, once, if it runs with events queued, and not otherwise; the plugins were given the
document's data, once, if there are any. And if it runs, a timer that is posted next is dropped as a
second one exactly if the queue holds a timer and is not full. -/
theorem restores_document {m : Machine} {c : Nat → Conduct} {l : Loading} {d : Document}
    {e : Entity} (known : m.entity? l.request.identity.localId = some e) (finds : m.Finds c l d)
    (r : Reply) :
    ∃ course M i, Thread.Ends c 0 m ⟨[.load l], r⟩ course M .loaded ∧
      M.get? m.instances.length = some i ∧ i.state = d.state ∧
      i.live = l.program.retain d.vars ∧ i.vars = l.program.retain d.vars ∧
      i.slot.running = d.running ∧ i.currentEvent = none ∧
      i.slot.queue.events =
        (Queue.onceTimed (d.queue ++ if d.running then l.request.greetings d else [])).take
          l.limits.queueCapacity ∧
      M.jobs = m.jobs ++ (if d.running && !i.slot.queue.isEmpty then
        [⟨m.instances.length, 1, .queued, false⟩] else []) ∧
      M.dispatches = (if d.running && !i.slot.queue.isEmpty then
        [m.jobs.length + 1] else []) ++ m.dispatches ∧
      M.imports = (if d.pluginData.isEmpty then [] else
        [⟨l.request.identity.localId, l.request.identity.item, l.request.identity.object,
          d.pluginData⟩]) ++ m.imports ∧
      (d.running = true → ∀ t : Event, t.isTimer = true → ∀ r,
        (((Instr.post m.instances.length t).exec M r).reply = .posting .coalesced ↔
          (∃ q ∈ i.slot.queue.events, q.isTimer = true) ∧
            i.slot.queue.length < l.limits.queueCapacity)) := by
  obtain ⟨course, M, i, ends, -, U, made, lawful, capacity⟩ := sets_up_document known finds r
  have work : i.slot.hasWork = (d.running && !i.slot.queue.isEmpty) := by
    rw [← made.running]; rfl
  have data : (if d.pluginData.isEmpty then [] else [d.pluginData]).map
      (fun b => (⟨l.request.identity.localId, l.request.identity.item, l.request.identity.object, b⟩
        : PluginImport)) = if d.pluginData.isEmpty then [] else
        [⟨l.request.identity.localId, l.request.identity.item, l.request.identity.object,
          d.pluginData⟩] := by
    split <;> rfl
  refine ⟨course, M, i, ends, U.here, made.state, made.live, made.vars, made.running, made.event,
    made.queue, ?_, ?_, ?_, ?_⟩
  · rw [← work]; exact U.jobs
  · rw [← work]; exact U.dispatches
  · rw [← data]
    exact U.imports
  · intro runs t timed r
    have pending : i.slot.queue.timerPending = true ↔
        ∃ q ∈ i.slot.queue.events, q.isTimer = true := by
      rw [lawful.flag, List.any_eq_true]
    refine Iff.trans ?_ ((Queue.push_coalesced_iff timed).trans (by rw [pending, capacity]))
    rw [U.reply_post (made.running.trans runs), Reply.posting.injEq]

/-- A document that no save has written: its queue holds two timers. -/
def heaped : Document :=
  ⟨"open", true, Vars.empty.insert "n" (.integer 1), [7], [.plain "timer" [], .setState "shut",
    .plain "timer" []], ⟨⟨2000, 1, 1⟩, 0, 0, 0⟩⟩

/-- How it is loaded: there is room for three events, and two greetings come after it. -/
def loadingHeaped : Loading where
  name := "a"
  request := ⟨{ (default : Identity) with item := .ofNat 1 }, 5, true, .newRez⟩
  program := .idle
  limits := ⟨3, heaped.encode.length + 1, 1024⟩
  registers := true
  place := 0

/-- The store has the document all the time. -/
def heapedStored : Nat → Conduct := fun _ =>
  ⟨.memory (MemoryStore.empty.write (.ofNat 1) heaped.encode), []⟩

theorem restores_document_heaped : ∃ course M i,
    Thread.Ends heapedStored 0 System.bareAtNewYear ⟨[.load loadingHeaped], .nothing⟩ course M
      .loaded ∧
      M.get? 0 = some i ∧ i.state = "open" ∧ i.vars = heaped.vars ∧ i.slot.running = true ∧
      i.slot.queue.events = [.plain "timer" [], .setState "shut", .onRez 5] ∧
      M.dispatches = [1] ∧ M.imports.map (·.data) = [[7]] := by
  have has : DocumentStore.Has (.memory (MemoryStore.empty.write (.ofNat 1) heaped.encode))
      (.ofNat 1) heaped.encode :=
    DocumentStore.has_of_write (d := .memory .empty) rfl
  have decodes : Document.decode heaped.encode = .ok heaped :=
    (Document.decode_encode (by decide)).1 ⟨by decide, by decide⟩
  have known : System.bareAtNewYear.entity? loadingHeaped.request.identity.localId = some default :=
    rfl
  have finds : System.bareAtNewYear.Finds heapedStored loadingHeaped heaped :=
    ⟨_, _, has.size, Nat.lt_add_one _, has.read, decodes⟩
  obtain ⟨course, M, i, ends, here, state, -, vars, running, -, queue, -, dispatches, imports, -⟩ :=
    restores_document known finds .nothing
  have queue : i.slot.queue.events = [.plain "timer" [], .setState "shut", .onRez 5] := queue
  refine ⟨course, M, i, ends, here, state, vars, running, queue, ?_, ?_⟩
  · rw [dispatches, Queue.isEmpty, queue]
    rfl
  · rw [imports]
    rfl

end Machine

end ScriptHost
