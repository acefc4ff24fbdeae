import ScriptHost.Engine.Step

/-!
# What a section leads to

`Instr.LeadsTo` lists, section by section, what may be to be done after it, and
`Machine.leadsTo` says that nothing else is. What sections of some kind come from
is read off it: the sections inside a save and inside a handler's run come from
nowhere else (`Instr.LeadsTo.outer`), and sections that belong to no turn lead to none
that does, the taking of a turn apart (`Instr.LeadsTo.apart`).
-/

namespace ScriptHost

namespace Instr

/-! ## Sections that come in a row -/

section Rows

variable {P : Instr → Prop} {m : Machine} {r : Reply} {id : Nat}

theorem next_about {f : Instance → Machine} : (about m r id f).next = [] := by
  unfold about
  split <;> rfl

theorem forall_about {f : Instance → Machine} : ∀ b ∈ (about m r id f).next, P b := by
  rw [next_about]
  exact List.forall_mem_nil P

theorem forall_leads {f : Instance → Machine × List Instr} (h : ∀ i, ∀ b ∈ (f i).2, P b) :
    ∀ b ∈ (leads m r id f).next, P b := by
  unfold leads
  split
  · exact h _
  · exact List.forall_mem_nil P

theorem forall_nested (begins : ∀ o, P (.noteBegin o)) (op : ∀ o, P (.op o)) (ends : P .noteReply)
    (ops : List Op) : ∀ b ∈ nested ops, P b := by
  intro b hb
  obtain ⟨o, -, hb⟩ := List.mem_flatMap.mp hb
  simp only [List.mem_cons, List.not_mem_nil, or_false] at hb
  rcases hb with rfl | rfl | rfl
  · exact begins o
  · exact op o
  · exact ends

theorem forall_request (post : ∀ e, P (.post id e)) (document : P (.removeState id))
    (vars : P (.edit id .resetVars)) (permissions : P (.clearPermissions id))
    (plugins : P (.removePlugins id)) (state : P (.replaceState id Instance.defaultState))
    (mask : P (.publishMask id)) (entry : P (.stateEntryUnlessCurrent id)) (q : Request) :
    ∀ b ∈ request id q, P b := by
  cases q with
  | setState state => simp only [request, setState, List.forall_mem_cons, post]; simp
  | reset =>
    simp only [request, apiReset, revokeGrants, List.cons_append, List.nil_append,
      List.forall_mem_cons]
    exact ⟨document, vars, permissions, plugins, state, mask, entry, List.forall_mem_nil P⟩

variable (start : P (.start id)) (post : ∀ e, P (.post id e))

include start post

theorem forall_freshStart (q : LoadRequest) : ∀ b ∈ freshStart id q, P b := by
  unfold freshStart
  split
  · exact List.forall_mem_cons.mpr ⟨start, List.forall_mem_cons.mpr
      ⟨post _, List.forall_mem_singleton.mpr (post _)⟩⟩
  · exact List.forall_mem_cons.mpr ⟨start, List.forall_mem_singleton.mpr (post _)⟩

theorem forall_restore (state : ∀ s, P (.replaceState id s)) (vars : ∀ e, P (.edit id e))
    (plugins : ∀ data, P (.importData id data)) (queue : ∀ events, P (.refill id events))
    (log : ∀ level message, P (.log level message)) (q : LoadRequest) (d : Document) :
    ∀ b ∈ restore id q d, P b := by
  have mayPost : ∀ (p : Prop) [Decidable p] (e : Event),
      ∀ b ∈ (if p then [Instr.post id e] else []), P b := by
    intro p _ e
    split
    · exact List.forall_mem_singleton.mpr (post e)
    · exact List.forall_mem_nil P
  simp only [restore, List.forall_mem_append]
  refine ⟨⟨⟨⟨?_, ?_⟩, ?_⟩, ?_⟩, mayPost _ _⟩
  · exact List.forall_mem_cons.mpr ⟨state _, List.forall_mem_singleton.mpr (vars _)⟩
  · split
    · exact List.forall_mem_nil P
    · exact List.forall_mem_singleton.mpr (plugins _)
  · exact List.forall_mem_cons.mpr ⟨queue _, List.forall_mem_singleton.mpr (log _ _)⟩
  · split
    · exact List.forall_mem_cons.mpr ⟨start, mayPost _ _⟩
    · exact List.forall_mem_nil P

omit start post in
theorem forall_finishLoad (mask : P (.publishMask id)) (register : P (.register id))
    (loaded : ∀ name place, P (.loaded id name place)) (l : Loading) :
    ∀ b ∈ finishLoad id l, P b := by
  unfold finishLoad
  split
  · exact List.forall_mem_cons.mpr ⟨mask, List.forall_mem_cons.mpr
      ⟨register, List.forall_mem_singleton.mpr (loaded _ _)⟩⟩
  · exact List.forall_mem_cons.mpr ⟨mask, List.forall_mem_singleton.mpr (loaded _ _)⟩

end Rows

end Instr

/-- What an operation begins with. -/
inductive Op.Begins (m : Machine) : Op → Instr → Prop where
  | answer {o : Op} {r : Reply} : Begins m o (.answer r)
  | log {o : Op} {level : Level} {message : String} : Begins m o (.log level message)
  | load {o : Op} {l : Loading} : Begins m o (.load l)
  | post {o : Op} {id : Nat} {e : Event} : Begins m o (.post id e)
  | postEach {o : Op} {ids : List Nat} {e : Event} {n : Nat} : Begins m o (.postEach ids e n)
  | run {o : Op} {turns : Nat} : Begins m o (.run turns 0)
  | start {o : Op} {id : Nat} : Begins m o (.start id)
  | stop {o : Op} {id ms : Nat} : Begins m o (.stop id ms)
  | reset {o : Op} {id : Nat} : Begins m o (.reset id)
  | apiReset {name : String} {id : Nat} {b : Instr} : b ∈ Instr.apiReset id →
      Begins m (.apiReset name) b
  | clearQueue {o : Op} {id : Nat} : Begins m o (.clearQueue id)
  | edit {o : Op} {id : Nat} {e : Edit} : Begins m o (.edit id e)
  | removeState {o : Op} {id : Nat} : Begins m o (.removeState id)
  | removePlugins {o : Op} {id : Nat} : Begins m o (.removePlugins id)
  | save {name : String} {id : Nat} : m.named? name = some id →
      Begins m (.save name) (.save id .running)
  | saveEach {o : Op} : Begins m o (.saveEach (m.registered.map (·.2)) none)
  | shutdownEach {o : Op} : Begins m o (.shutdownEach (m.registered.map (·.2)) none)

/-- `LeadsTo m a b`: the section `a`, done on `m`, may lead to the section `b`. -/
inductive Instr.LeadsTo (m : Machine) : Instr → Instr → Prop where
  | op {o : Op} {b : Instr} : o.Begins m b → LeadsTo m (.op o) b
  -- stops
  | await {id ms : Nat} {turn : Turn} : LeadsTo m (.stop id ms) (.stopWait id ms turn)
  | waitHook {id ms : Nat} {turn : Turn} {ops : List Op} {b : Instr} : b ∈ nested ops →
      LeadsTo m (.stopWait id ms turn) b
  | waited {id ms : Nat} {turn : Turn} {forced : Option Bool} :
      LeadsTo m (.stopWait id ms turn) (.stopWaited id ms turn forced)
  | overdue {id ms : Nat} {turn : Turn} {forced : Option Bool} :
      LeadsTo m (.stopWaited id ms turn forced) (.stopCheck id ms turn)
  | abort {id ms : Nat} {turn : Turn} : LeadsTo m (.stopCheck id ms turn) (.stopAbort id turn)
  | giveUp {id ms : Nat} {turn : Turn} : LeadsTo m (.stopCheck id ms turn) (.stopEnd id turn)
  -- resets
  | reset {id : Nat} {running : Bool} {b : Instr} : b ∈ resetAll id running →
      LeadsTo m (.reset id) b
  | stateEntry {id : Nat} : LeadsTo m (.stateEntryUnlessCurrent id) (.post id .stateEntry)
  -- letting the script go
  | edited {id : Nat} {e : Edit} : LeadsTo m (.edit id e) (.letGo id .edit)
  | published {id : Nat} : LeadsTo m (.publishMask id) (.letGo id .mask)
  -- saving, and posting to many
  | save {id : Nat} {i : Instance} {s s' : Saving} : m.get? id = some i →
      .save id s' ∈ (m.save id i s).2.1 → LeadsTo m (.save id s) (.save id s')
  | saveFirst {id : Nat} {ids : List Nat} {first : Option Error} :
      LeadsTo m (.saveEach (id :: ids) first) (.save id .running)
  | saveOthers {id : Nat} {ids : List Nat} {first : Option Error} :
      LeadsTo m (.saveEach (id :: ids) first) (.saved ids first false)
  | shutdownStop {id ms : Nat} {ids : List Nat} {first : Option Error} :
      LeadsTo m (.shutdownEach (id :: ids) first) (.stop id ms)
  | shutdownSave {id : Nat} {i : Instance} {ids : List Nat} {first : Option Error} :
      m.get? id = some i →
      LeadsTo m (.shutdownEach (id :: ids) first) (.save id (.state i.slot.running))
  | shutdownOthers {id : Nat} {ids : List Nat} {first : Option Error} :
      LeadsTo m (.shutdownEach (id :: ids) first) (.saved ids first true)
  | savedEach {ids : List Nat} {first e : Option Error} :
      LeadsTo m (.saved ids first false) (.saveEach ids e)
  | savedShutdown {ids : List Nat} {first e : Option Error} :
      LeadsTo m (.saved ids first true) (.shutdownEach ids e)
  | postFirst {id : Nat} {ids : List Nat} {e : Event} {n : Nat} :
      LeadsTo m (.postEach (id :: ids) e n) (.post id e)
  | postOthers {id : Nat} {ids : List Nat} {e : Event} {n : Nat} :
      LeadsTo m (.postEach (id :: ids) e n) (.posted ids e n)
  | postedEach {ids : List Nat} {e : Event} {n k : Nat} :
      LeadsTo m (.posted ids e n) (.postEach ids e k)
  -- loading
  | create {id : Nat} {l : Loading} : LeadsTo m (.load l) (.recoverSize id l)
  | found {id : Nat} {l : Loading} : LeadsTo m (.recoverSize id l) (.recoverRead id l)
  | fresh {id : Nat} {l : Loading} {b : Instr} :
      b ∈ freshStart id l.request ++ finishLoad id l → LeadsTo m (.recoverSize id l) b
  | unread {id : Nat} {l : Loading} {b : Instr} :
      b ∈ freshStart id l.request ++ finishLoad id l → LeadsTo m (.recoverRead id l) b
  | restore {id : Nat} {l : Loading} {d : Document} {b : Instr} :
      b ∈ Instr.restore id l.request d ++ finishLoad id l → LeadsTo m (.recoverRead id l) b
  -- turns
  | runTurn {turns ran id ticket n : Nat} : LeadsTo m (.run turns ran) (.takeTurn id ticket n)
  | runDone {turns ran n : Nat} : LeadsTo m (.run turns ran) (.jobDone n)
  | runOthers {turns ran turns' ran' : Nat} : LeadsTo m (.run turns ran) (.run turns' ran')
  | switch {id ticket n : Nat} {state : String} :
      LeadsTo m (.takeTurn id ticket n) (.replaceState id state)
  | switchPlugins {id ticket n : Nat} : LeadsTo m (.takeTurn id ticket n) (.removePlugins id)
  | switchMask {id ticket n : Nat} : LeadsTo m (.takeTurn id ticket n) (.publishMask id)
  | switched {id ticket n : Nat} :
      LeadsTo m (.takeTurn id ticket n) (.count (.executed "set_state"))
  | take {id ticket n : Nat} {e : Event} :
      LeadsTo m (.takeTurn id ticket n) (.readDetected ⟨id, ticket, n, e, "", [], []⟩)
  | finish {id ticket n : Nat} : LeadsTo m (.takeTurn id ticket n) (.finishTurn id ticket)
  | read {v : Invocation} {l : List Detection} :
      LeadsTo m (.readDetected v) (.lockScript { v with detected := l })
  | settle {v : Invocation} : LeadsTo m (.lockScript v) (.settle v.id)
  | enter {v : Invocation} : LeadsTo m (.lockScript v) (.enter v)
  | begin {v : Invocation} {state : String} {l : List Action} :
      LeadsTo m (.enter v) (.act { v with state := state } l)
  | act {v : Invocation} {requests : List Request} {l l' : List Action} :
      LeadsTo m (.act v l) (.act { v with requests := requests } l')
  | call {v : Invocation} {l : List Action} {ops : List Op} {b : Instr} : b ∈ nested ops →
      LeadsTo m (.act v l) b
  | park {v : Invocation} {l : List Action} {untilInterrupted : Bool} {n : Nat} :
      LeadsTo m (.act v l) (.parked v.job untilInterrupted n)
  | leaveSettle {v : Invocation} {l : List Action} : LeadsTo m (.act v l) (.settle v.id)
  | leaveUnlock {v : Invocation} {l : List Action} : LeadsTo m (.act v l) (.unlock v.id)
  | leave {v : Invocation} {l : List Action} {o : Outcome} :
      LeadsTo m (.act v l) (.applyRequests v o)
  | request {v : Invocation} {o : Outcome} {q : Request} {b : Instr} : b ∈ request v.id q →
      LeadsTo m (.applyRequests v o) b
  | conclude {v : Invocation} {o : Outcome} : LeadsTo m (.applyRequests v o) (.conclude v o)
  | selfDelete {v : Invocation} {o : Outcome} : LeadsTo m (.conclude v o) (.selfDelete v.id)
  | showFault {v : Invocation} {o : Outcome} {f : Fault} :
      LeadsTo m (.conclude v o) (.showFault v f)
  | record {v : Invocation} {o : Outcome} : LeadsTo m (.conclude v o) (.record v o)
  | deleteHook {id : Nat} {ops : List Op} {b : Instr} : b ∈ nested ops →
      LeadsTo m (.selfDelete id) b
  | deleted {id : Nat} {e : Entity} : LeadsTo m (.selfDelete id) (.deleted e)
  | messageHook {v : Invocation} {f : Fault} {ops : List Op} {b : Instr} : b ∈ nested ops →
      LeadsTo m (.showFault v f) b
  | delivered {v : Invocation} {f : Fault} {text : String} {e : Entity} :
      LeadsTo m (.showFault v f) (.delivered text e)

namespace Machine

open Instr

variable {m : Machine} {o : Op}

theorem begins_onEngine : ∀ b ∈ (m.onEngine o).2.1, o.Begins m b := by
  cases o with
  | load name request program direct =>
    cases direct with
    | some limits => exact List.forall_mem_singleton.mpr .load
    | none =>
      simp only [onEngine, loadReplacing]
      split
      · exact List.forall_mem_singleton.mpr .load
      · exact List.forall_mem_cons.mpr ⟨.stop, List.forall_mem_singleton.mpr .load⟩
  | remove item =>
    simp only [onEngine, removeScript]
    split
    · exact List.forall_mem_singleton.mpr .answer
    · simp only [List.forall_mem_cons]
      exact ⟨.stop, .removeState, .removePlugins, .log, .answer, List.forall_mem_nil _⟩
  | postItem item e =>
    simp only [onEngine]
    split
    · exact List.forall_mem_singleton.mpr .post
    · exact List.forall_mem_nil _
  | stopAll =>
    simp only [onEngine, List.forall_mem_append, List.forall_mem_map]
    exact ⟨fun _ _ => .stop, List.forall_mem_singleton.mpr .answer⟩
  | postObject => exact List.forall_mem_singleton.mpr .postEach
  | saveAll => exact List.forall_mem_singleton.mpr .saveEach
  | shutdown => exact List.forall_mem_singleton.mpr .shutdownEach
  | run => exact List.forall_mem_singleton.mpr .run
  | _ => exact List.forall_mem_nil _

theorem begins_onInstance {name : String} {id : Nat} {i : Instance} (target : target? o = some name)
    (named : m.named? name = some id) : ∀ b ∈ (m.onInstance id i o).2.1, o.Begins m b := by
  cases o with
  | setState name state =>
    simp only [onInstance, setState, List.cons_append, List.nil_append, List.forall_mem_cons]
    exact ⟨.post, .post, .post, .answer, List.forall_mem_nil _⟩
  | apiReset name =>
    exact List.forall_mem_append.mpr ⟨fun b hb => .apiReset hb, List.forall_mem_singleton.mpr .answer⟩
  | stop => exact List.forall_mem_cons.mpr ⟨.stop, List.forall_mem_singleton.mpr .answer⟩
  | reset => exact List.forall_mem_cons.mpr ⟨.reset, List.forall_mem_singleton.mpr .answer⟩
  | post => exact List.forall_mem_singleton.mpr .post
  | start => exact List.forall_mem_singleton.mpr .start
  | save => cases target; exact List.forall_mem_singleton.mpr (.save named)
  | removeState => exact List.forall_mem_singleton.mpr .removeState
  | clearQueue => exact List.forall_mem_singleton.mpr .clearQueue
  | setVars => exact List.forall_mem_singleton.mpr .edit
  | _ => exact List.forall_mem_nil _

theorem begins_perform : ∀ b ∈ (m.perform o).2.1, o.Begins m b := by
  unfold perform
  split
  · exact begins_onEngine
  · next target =>
    split
    · exact List.forall_mem_nil _
    · next named =>
      split
      · exact List.forall_mem_nil _
      · exact begins_onInstance target named

theorem leadsTo_act {i : Instance} {v : Invocation} {l : List Action} :
    ∀ b ∈ (m.act i v l).2, (Instr.act v l).LeadsTo m b := by
  have leaves : ∀ o, ∀ b ∈ leave v o, (Instr.act v l).LeadsTo m b := fun o => by
    simp only [leave, List.forall_mem_cons]
    exact ⟨.leaveSettle, .leaveUnlock, .leave, List.forall_mem_nil _⟩
  cases l with
  | nil => exact leaves _
  | cons x rest =>
    cases x with
    | takeArgument =>
      simp only [act]
      split <;> exact List.forall_mem_singleton.mpr .act
    | perform ops =>
      exact List.forall_mem_append.mpr ⟨fun b hb => .call hb, List.forall_mem_singleton.mpr .act⟩
    | cancelIfInterrupted =>
      simp only [act]
      split
      · exact leaves _
      · exact List.forall_mem_singleton.mpr .act
    | park => exact List.forall_mem_cons.mpr ⟨.park, List.forall_mem_singleton.mpr .act⟩
    | finish => exact leaves _
    | _ => exact List.forall_mem_singleton.mpr .act

theorem leadsTo_takeTurn {id ticket n : Nat} {i : Instance} :
    ∀ b ∈ (m.takeTurn id i ticket n).2, (Instr.takeTurn id ticket n).LeadsTo m b := by
  unfold takeTurn
  split
  · split
    · exact List.forall_mem_nil _
    · simp only
      split
      · refine List.forall_mem_append.mpr ⟨?_, List.forall_mem_singleton.mpr .finish⟩
        unfold switchState
        split
        · exact List.forall_mem_nil _
        · simp only [List.forall_mem_cons]
          exact ⟨.switch, .switchPlugins, .switchMask, .switched, List.forall_mem_nil _⟩
      · exact List.forall_mem_cons.mpr ⟨.take, List.forall_mem_singleton.mpr .finish⟩
  · exact List.forall_mem_nil _

theorem leadsTo_recoverSize {id : Nat} {i : Instance} {l : Loading} :
    ∀ b ∈ (m.recoverSize id i l).2, (Instr.recoverSize id l).LeadsTo m b := by
  unfold recoverSize
  split
  · exact fun _ hb => .fresh hb
  · split
    · exact fun _ hb => .fresh hb
    · exact List.forall_mem_singleton.mpr .found
  · exact fun _ hb => .fresh hb

theorem leadsTo_recoverRead {id : Nat} {i : Instance} {l : Loading} :
    ∀ b ∈ (m.recoverRead id i l).2, (Instr.recoverRead id l).LeadsTo m b := by
  unfold recoverRead
  split
  · exact fun _ hb => .unread hb
  · split
    · exact fun _ hb => .unread hb
    · exact fun _ hb => .restore hb

theorem leadsTo_save {id : Nat} {i : Instance} {s : Saving} (hi : m.get? id = some i) :
    ∀ b ∈ (m.save id i s).2.1, (Instr.save id s).LeadsTo m b := by
  have next : ∀ s', (m.save id i s).2.1 = [.save id s'] →
      ∀ b ∈ (m.save id i s).2.1, (Instr.save id s).LeadsTo m b := by
    intro s' h
    rw [h]
    exact List.forall_mem_singleton.mpr (.save hi (h ▸ List.mem_singleton_self _))
  cases s with
  | verify =>
    simp only [save]
    split <;> exact List.forall_mem_nil _
  | _ => exact next _ rfl

theorem leadsTo_run {turns ran : Nat} :
    ∀ b ∈ (m.run turns ran).2.1, (Instr.run turns ran).LeadsTo m b := by
  unfold run
  split
  · exact List.forall_mem_nil _
  · exact List.forall_mem_nil _
  · split
    · exact List.forall_mem_nil _
    · split
      · exact List.forall_mem_nil _
      · simp only [List.forall_mem_cons]
        exact ⟨.runTurn, .runDone, .runOthers, List.forall_mem_nil _⟩

theorem leadsTo_selfDelete {id : Nat} {i : Instance} :
    ∀ b ∈ (m.selfDelete id i).2, (Instr.selfDelete id).LeadsTo m b := by
  unfold selfDelete takeDeleteHook
  simp only
  split
  · exact List.forall_mem_nil _
  · refine List.forall_mem_append.mpr ⟨?_, List.forall_mem_singleton.mpr .deleted⟩
    split
    · exact List.forall_mem_nil _
    · exact fun _ hb => .deleteHook hb

theorem leadsTo_showFault {i : Instance} {v : Invocation} {f : Fault} :
    ∀ b ∈ (m.showFault i f).2, (Instr.showFault v f).LeadsTo m b := by
  unfold showFault takeMessageHook
  simp only
  split
  · exact List.forall_mem_nil _
  · refine List.forall_mem_append.mpr ⟨?_, List.forall_mem_singleton.mpr .delivered⟩
    split
    · exact List.forall_mem_nil _
    · exact fun _ hb => .messageHook hb

/-- What a section leads to is told one by one. -/
theorem leadsTo (m : Machine) (r : Reply) (a : Instr) : ∀ b ∈ (a.exec m r).next, a.LeadsTo m b := by
  cases a with
  | op o => exact fun b hb => .op (begins_perform b hb)
  | stop id ms =>
    refine forall_leads fun i => ?_
    simp only
    split
    · exact List.forall_mem_singleton.mpr .await
    · exact List.forall_mem_nil _
  | stopWait id ms turn =>
    simp only [exec]
    split
    · exact List.forall_mem_singleton.mpr .waited
    · exact List.forall_mem_append.mpr
        ⟨fun b hb => .waitHook hb, List.forall_mem_singleton.mpr .waited⟩
  | stopWaited id ms turn forced =>
    simp only [exec]
    split
    · exact List.forall_mem_nil _
    · exact List.forall_mem_singleton.mpr .overdue
  | stopCheck id ms turn =>
    refine forall_leads fun i => ?_
    simp only
    split
    · exact List.forall_mem_cons.mpr ⟨.abort, List.forall_mem_singleton.mpr .giveUp⟩
    · exact List.forall_mem_nil _
  | post id e =>
    simp only [exec]
    split <;> exact List.forall_mem_nil _
  | reset id => exact forall_leads fun i b hb => .reset hb
  | stateEntryUnlessCurrent id =>
    refine forall_leads fun i => ?_
    simp only
    split
    · exact List.forall_mem_nil _
    · exact List.forall_mem_singleton.mpr .stateEntry
  | edit id e =>
    refine forall_leads fun i => ?_
    simp only
    split
    · exact List.forall_mem_nil _
    · exact List.forall_mem_singleton.mpr .edited
  | publishMask id =>
    refine forall_leads fun i => ?_
    simp only
    split
    · exact List.forall_mem_nil _
    · exact List.forall_mem_singleton.mpr .published
  | save id s =>
    simp only [exec]
    split
    · next hi => exact leadsTo_save hi
    · exact List.forall_mem_nil _
  | saveEach ids first =>
    cases ids with
    | nil => exact List.forall_mem_nil _
    | cons id ids =>
      exact List.forall_mem_cons.mpr ⟨.saveFirst, List.forall_mem_singleton.mpr .saveOthers⟩
  | shutdownEach ids first =>
    cases ids with
    | nil => exact List.forall_mem_nil _
    | cons id ids =>
      simp only [exec, Instr.leads]
      split
      · next hi =>
        simp only [List.forall_mem_cons]
        exact ⟨.shutdownStop, .shutdownSave hi, .shutdownOthers, List.forall_mem_nil _⟩
      · exact List.forall_mem_nil _
  | saved ids first shutdown =>
    cases shutdown with
    | true => exact List.forall_mem_singleton.mpr .savedShutdown
    | false => exact List.forall_mem_singleton.mpr .savedEach
  | load l =>
    simp only [exec, load]
    split
    · exact List.forall_mem_nil _
    · exact List.forall_mem_singleton.mpr .create
  | recoverSize id l => exact forall_leads fun i => leadsTo_recoverSize
  | recoverRead id l => exact forall_leads fun i => leadsTo_recoverRead
  | postEach ids e n =>
    cases ids with
    | nil => exact List.forall_mem_nil _
    | cons id ids =>
      exact List.forall_mem_cons.mpr ⟨.postFirst, List.forall_mem_singleton.mpr .postOthers⟩
  | posted ids e n => exact List.forall_mem_singleton.mpr .postedEach
  | run turns ran => exact leadsTo_run
  | takeTurn id ticket n => exact forall_leads fun i => leadsTo_takeTurn
  | readDetected v => exact forall_leads fun i => List.forall_mem_singleton.mpr .read
  | lockScript v =>
    exact List.forall_mem_cons.mpr ⟨.settle, List.forall_mem_singleton.mpr .enter⟩
  | enter v =>
    refine forall_leads fun i => ?_
    simp only [enter]
    split <;> exact List.forall_mem_singleton.mpr .begin
  | act v l => exact forall_leads fun i => leadsTo_act
  | applyRequests v o =>
    refine forall_leads fun i => ?_
    split
    · refine List.forall_mem_append.mpr ⟨fun b hb => ?_, List.forall_mem_singleton.mpr .conclude⟩
      obtain ⟨q, -, hb⟩ := List.mem_flatMap.mp hb
      exact .request hb
    · exact List.forall_mem_singleton.mpr .conclude
  | conclude v o =>
    cases o with
    | selfDelete => exact List.forall_mem_cons.mpr ⟨.selfDelete, List.forall_mem_singleton.mpr .record⟩
    | fault f => exact List.forall_mem_cons.mpr ⟨.showFault, List.forall_mem_singleton.mpr .record⟩
    | _ => exact List.forall_mem_singleton.mpr .record
  | selfDelete id => exact forall_leads fun i => leadsTo_selfDelete
  | showFault v f => exact forall_leads fun i => leadsTo_showFault
  | start | stopAbort | stopEnd | clearPermissions | removePlugins | removeState | importData
  | register | record | finishTurn => exact forall_about
  | _ => exact List.forall_mem_nil _

end Machine

namespace Instr

/-! ## Inside a save, inside a handler's run, and on a turn -/

/-- Sections that are not inside a save and not inside a handler's run. -/
def outer : Instr → Bool
  | .save _ .running => true
  | .save _ _ | .settle _ | .act _ _ | .unlock _ => false
  | _ => true

/-- Sections that lead to one that is inside. -/
def leadsInside : Instr → Bool
  | .save _ _ | .shutdownEach _ _ | .lockScript _ | .enter _ | .act _ _ => true
  | _ => false

/-- Outer sections that do not belong to a turn either. -/
def apart : Instr → Bool
  | .readDetected _ | .lockScript _ | .enter _ | .parked _ _ _ | .applyRequests _ _
  | .conclude _ _ | .selfDelete _ | .deleted _ | .showFault _ _ | .delivered _ _ | .record _ _
  | .finishTurn _ _ => false
  | a => a.outer

/-- Sections that lead to one that is not apart. -/
def leadsOn : Instr → Bool
  | .takeTurn _ _ _ | .readDetected _ | .applyRequests _ _ | .conclude _ _ | .selfDelete _
  | .showFault _ _ => true
  | a => a.leadsInside

variable {m : Machine} {a b : Instr}

theorem outer_of_apart (h : a.apart = true) : a.outer = true := by
  cases a <;> first | exact h | cases h

theorem apart_nested {ops : List Op} : ∀ b ∈ nested ops, b.apart = true :=
  forall_nested (P := (·.apart = true)) (fun _ => rfl) (fun _ => rfl) rfl ops

theorem apart_request {id : Nat} {q : Request} : ∀ b ∈ request id q, b.apart = true :=
  forall_request (P := (·.apart = true)) (fun _ => rfl) rfl rfl rfl rfl rfl rfl rfl q

theorem apart_resetAll {id : Nat} {running : Bool} : ∀ b ∈ resetAll id running, b.apart = true := by
  cases running <;> simp [resetAll, revokeGrants, apart, outer]

theorem apart_finishLoad {id : Nat} {l : Loading} : ∀ b ∈ finishLoad id l, b.apart = true :=
  forall_finishLoad (P := (·.apart = true)) rfl rfl (fun _ _ => rfl) l

theorem apart_fresh {id : Nat} {l : Loading} :
    ∀ b ∈ freshStart id l.request ++ finishLoad id l, b.apart = true :=
  List.forall_mem_append.mpr
    ⟨forall_freshStart (P := (·.apart = true)) rfl (fun _ => rfl) l.request, apart_finishLoad⟩

theorem apart_restore {id : Nat} {l : Loading} {d : Document} :
    ∀ b ∈ restore id l.request d ++ finishLoad id l, b.apart = true :=
  List.forall_mem_append.mpr
    ⟨forall_restore (P := (·.apart = true)) rfl (fun _ => rfl) (fun _ => rfl) (fun _ => rfl)
      (fun _ => rfl) (fun _ => rfl) (fun _ _ => rfl) l.request d, apart_finishLoad⟩

theorem LeadsTo.apart (h : a.LeadsTo m b) (ha : a.leadsOn = false) : b.apart = true := by
  cases h with
  | op begins =>
    cases begins with
    | apiReset hb => exact apart_request (q := .reset) b hb
    | _ => rfl
  | waitHook hb => exact apart_nested b hb
  | reset hb => exact apart_resetAll b hb
  | fresh hb | unread hb => exact apart_fresh b hb
  | restore hb => exact apart_restore b hb
  | _ => first | rfl | cases ha

theorem LeadsTo.outer (h : a.LeadsTo m b) (ha : a.leadsInside = false) : b.outer = true := by
  by_cases on : a.leadsOn = false
  · exact outer_of_apart (h.apart on)
  · cases h with
    | request hb => exact outer_of_apart (apart_request b hb)
    | deleteHook hb | messageHook hb => exact outer_of_apart (apart_nested b hb)
    | _ => first | rfl | exact absurd rfl on | cases ha

end Instr

namespace Machine

/-- The run of a handler goes on: it stays the run of the same turn of the same instance, and ends
with sections that refresh what others see of the script and let it go. -/
theorem next_act (m : Machine) (r : Reply) (v : Invocation) (l : List Action) {b : Instr}
    (h : b ∈ ((Instr.act v l).exec m r).next) :
    b.outer = true ∨ b = .settle v.id ∨ b = .unlock v.id ∨
      ∃ w rest, b = .act w rest ∧ w.id = v.id ∧ w.ticket = v.ticket := by
  cases m.leadsTo r _ b h with
  | act => exact .inr (.inr (.inr ⟨_, _, rfl, rfl, rfl⟩))
  | leaveSettle => exact .inr (.inl rfl)
  | leaveUnlock => exact .inr (.inr (.inl rfl))
  | call hb => exact .inl (Instr.outer_of_apart (Instr.apart_nested b hb))
  | park | leave => exact .inl rfl

/-- A save comes to a section of its own from the one before. -/
theorem next_save {m : Machine} {r : Reply} {a : Instr} {id : Nat} {s : Saving}
    (h : .save id s ∈ (a.exec m r).next) :
    s = .running ∨ ∃ i, m.get? id = some i ∧
      ((∃ s', a = .save id s' ∧ .save id s ∈ (m.save id i s').2.1) ∨
        ∃ rest first, a = .shutdownEach (id :: rest) first ∧ s = .state i.slot.running) := by
  have begins : (Instr.save id s).outer = true → s = .running := fun ho => by
    cases s <;> first | rfl | cases ho
  have from_a := m.leadsTo r a _ h
  by_cases hl : a.leadsInside = false
  · exact .inl (begins (from_a.outer hl))
  · cases from_a with
    | save hi hs => exact .inr ⟨_, hi, .inl ⟨_, rfl, hs⟩⟩
    | shutdownSave hi => exact .inr ⟨_, hi, .inr ⟨_, _, rfl, rfl⟩⟩
    | call hb => exact .inl (begins (Instr.outer_of_apart (Instr.apart_nested _ hb)))
    | _ => exact absurd rfl hl

end Machine

end ScriptHost
