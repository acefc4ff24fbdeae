import ScriptHost.Proofs.Engine.Turn

/-!
# The course of a turn

What becomes of a turn while nobody else acts on its instance, whatever its
handler makes of variables and however it ends, whatever fails in the world, and
whatever else happens between its sections. A handler that asks for nothing
(`Action.Quiet`) leaves queue, jobs and named state alone
(`Aspect.leads_handle`), so a turn takes one event, answers it
(`Machine.Presents.takes`), and hands the slot on.
-/

namespace ScriptHost

/-! ## Handlers that ask for nothing -/

/-- A handler that goes through with its actions by itself and asks for nothing, however it
ends. -/
inductive Action.Quiet : List Action → Prop where
  | nil : Quiet []
  | simple {a : Action} {rest : List Action} : a.simple = true → a.requested = [] → Quiet rest →
      Quiet (a :: rest)
  | choose {next : View → List Action} {rest : List Action} :
      (∀ view, Quiet (next view ++ rest)) → Quiet (.choose next :: rest)
  | finish {how : Finish} {rest : List Action} : Quiet (.finish how :: rest)

/-- A program whose handlers ask for nothing, in any run. -/
def Program.Quiet (p : Program) : Prop :=
  ∀ state name key actions, p.handler state name = some (key, actions) →
    ∀ n, Action.Quiet (actions n)

theorem Program.quiet_answering {handlers : List (String × List Action)}
    (h : ∀ name actions, (name, actions) ∈ handlers → Action.Quiet actions) :
    (answering handlers).Quiet := by
  intro state name key actions hh n
  obtain ⟨l, hl, he⟩ := Option.map_eq_some_iff.mp hh
  obtain ⟨rfl, rfl⟩ := Prod.mk.inj he
  obtain ⟨before, after, rfl, -⟩ := List.lookup_eq_some_iff.mp hl
  exact h name l (by simp)

/-- The named state once the event has been taken. -/
def Event.switch (e : Event) (state : String) : String :=
  if e.isSetState then (e.args.head?.map Value.text).getD state else state

/-- The call of a handler by which the event is answered, unless it is a reserved record. -/
def Event.answer (e : Event) (state : String) : List Sight :=
  if e.isSetState then [] else [.called state e e.detected]

/-! ## Sections that come to their end -/

/-- What of an instance matters to its turns, its slot apart. -/
structure Aspect where
  program : Program
  state : String
  holder : Option Holder
  detected : List Detection

def Instance.aspect (i : Instance) : Aspect := ⟨i.program, i.state, i.holder, i.detected⟩

/-- The machine has an instance of this aspect, and no collaborator calls back. -/
structure Machine.Presents (m : Machine) (id : Nat) (f : Aspect) : Prop where
  unhooked : m.hooks = ([], [], [])
  here : ∃ i, m.get? id = some i ∧ i.aspect = f

theorem Instr.handles_of_minor {a : Instr} (h : a.minor = true) : a.handles = false := by
  cases a <;> first | rfl | cases h

namespace Machine.Presents

variable {m : Machine} {id : Nat} {f g : Aspect} {a : Instr}

theorem unique (P : m.Presents id f) (P' : m.Presents id g) : f = g := by
  obtain ⟨i, hi, rfl⟩ := P.here
  obtain ⟨j, hj, rfl⟩ := P'.here
  exact congrArg _ (Option.some.inj (hi.symm.trans hj))

theorem here_slot {s : Slot} (P : m.Presents id f) (hs : m.core.slots[id]? = some s) :
    ∃ i, m.get? id = some i ∧ i.aspect = f ∧ i.slot = s := by
  obtain ⟨i, hi, hf⟩ := P.here
  exact ⟨i, hi, hf, Option.some.inj ((slot_of_get? hi).symm.trans hs)⟩

theorem exec (P : m.Presents id f) (r : Reply) (ho : ∀ o, a ≠ .op o)
    (alter : ∀ i, m.get? id = some i → i.aspect = f → (a.alter id i).aspect = g) :
    (a.exec m r).machine.Presents id g := by
  obtain ⟨i, hi, hf⟩ := P.here
  obtain ⟨s, p, hg⟩ := get?_exec r a hi
  exact ⟨hooks_exec P.unhooked r ho, _, hg, alter i hi hf⟩

end Machine.Presents

namespace Aspect

/-- Whatever the machine, the section need not wait and leaves the core; `s` is what is seen of
the instance, and the aspect comes from `f` to `e`. -/
structure Does (id : Nat) (f : Aspect) (a : Instr) (s : List Sight) (e : Aspect) : Prop where
  handles : a.handles = false
  free : ∀ m, m.Presents id f → a.blocked m = false
  sights : ∀ m, m.Presents id f → Section.sights id ⟨m, a⟩ = s
  core : ∀ m r, m.Presents id f → (a.exec m r).machine.core = m.core
  after : ∀ m r, m.Presents id f → (a.exec m r).machine.Presents id e

/-- Whoever does these sections of an instance of the aspect `f` comes to their end, whatever
happens between them that leaves the aspect alone; the aspect is `g` then, and `s` is what is seen
of the instance on the way. -/
inductive Leads (id : Nat) : Aspect → List Instr → List Sight → Aspect → Prop where
  | nil {f : Aspect} : Leads id f [] [] f
  | cons {f e g : Aspect} {a : Instr} {l : List Instr} {s u : List Sight} : f.Does id a s e →
      (∀ m r, m.Presents id f → Leads id e ((a.exec m r).next ++ l) u g) →
      Leads id f (a :: l) (s ++ u) g

variable {id : Nat} {f e g : Aspect} {a : Instr}

/-- A section that leaves the core alone, never waits and is not seen. -/
theorem Does.of_minor (hm : a.minor = true) (hu : a.unseen = true) (hb : ∀ m, a.blocked m = false)
    (alter : ∀ i, i.aspect = f → (a.alter id i).aspect = e) : f.Does id a [] e where
  handles := Instr.handles_of_minor hm
  free m _ := hb m
  sights _ _ := Section.sights_unseen hu
  core _ r _ := Machine.core_exec r hm
  after _ r P := P.exec r (by rintro o rfl; cases hm) fun i _ => alter i

namespace Leads

variable {l l' : List Instr} {s u : List Sight}

theorem append (h : f.Leads id l s e) (h' : e.Leads id l' u g) :
    f.Leads id (l ++ l') (s ++ u) g := by
  induction h with
  | nil => exact h'
  | cons D _ ih =>
    rw [List.append_assoc, List.cons_append]
    refine .cons D fun m r P => ?_
    rw [← List.append_assoc]
    exact ih m r P h'

theorem free {m : Machine} (h : f.Leads id (a :: l) s g) (P : m.Presents id f) :
    a.blocked m = false := by
  cases h with
  | cons D _ => exact D.free m P

/-- One section, and what it leads to. -/
theorem first (D : f.Does id a s e)
    (h : ∀ m r, m.Presents id f → e.Leads id (a.exec m r).next u g) :
    f.Leads id [a] (s ++ u) g :=
  .cons D fun m r P => by
    rw [List.append_nil]
    exact h m r P

/-- One section that leaves the core alone and is not seen, and what it leads to. -/
theorem via (hm : a.minor = true) (hu : a.unseen = true) (hb : ∀ m, a.blocked m = false)
    (alter : ∀ i, i.aspect = f → (a.alter id i).aspect = e)
    (h : ∀ m r i, m.Presents id f → m.get? id = some i → i.aspect = f →
      ∃ l, (a.exec m r).next = l ∧ e.Leads id l s g) : f.Leads id [a] s g :=
  first (.of_minor hm hu hb alter) fun m r P => by
    obtain ⟨i, hi, hf⟩ := P.here
    obtain ⟨l, hn, lead⟩ := h m r i P hi hf
    exact hn ▸ lead

/-- Such a section that leads to no others. -/
theorem one (hm : a.minor = true) (hu : a.unseen = true) (hb : ∀ m, a.blocked m = false)
    (alter : ∀ i, i.aspect = f → (a.alter id i).aspect = g)
    (hn : ∀ m r, (a.exec m r).next = []) : f.Leads id [a] [] g :=
  via hm hu hb alter fun m r _ _ _ _ => ⟨[], hn m r, nil⟩

end Leads

/-! ## The run of a handler -/

variable {v : Invocation} {m : Machine} {i : Instance}

theorem leads_record (o : Outcome) : f.Leads id [.record v o] [] f :=
  .one rfl rfl (fun _ => rfl) (fun _ h => h) fun _ _ => Instr.next_about

/-- To settle a script changes nothing of it that matters to its turns. -/
theorem leads_settle : f.Leads id [.settle id] [] f := by
  refine .one rfl rfl (fun _ => rfl) (fun i h => ?_) fun _ _ => rfl
  simp only [Instr.alter, Instr.change?, if_true]
  exact h

/-- A script that deletes its own entity asks the world to, if the entity is there. -/
theorem leads_selfDelete : f.Leads id [.selfDelete id] [] f := by
  have deleted : ∀ e : Entity, f.Leads id [.deleted e] [] f := fun e =>
    .one rfl rfl (fun _ => rfl) (fun _ h => h) fun _ _ => rfl
  refine .via (e := f) rfl rfl (fun _ => rfl) (fun i h => ?_) fun m r i P hi _ => ?_
  · simp only [Instr.alter, Instr.change?, if_true]
    exact h
  · have none : ((m.modify id fun i => { i with selfDeleting := true }).log .info
        "script deleting its own entity").deleteHooks = [] := congrArg (fun p => p.2.2) P.unhooked
    simp only [Instr.exec, Instr.leads, hi, Machine.selfDelete]
    split
    · exact ⟨[], rfl, .nil⟩
    · next e _ => exact ⟨[.deleted e], by rw [Machine.takeDeleteHook_of_none none]; rfl, deleted e⟩

/-- A fault is shown in the world, if the entity is there. -/
theorem leads_showFault (hv : v.id = id) (e : Fault) : f.Leads id [.showFault v e] [] f := by
  subst hv
  have delivered : ∀ (t : String) (e : Entity), f.Leads v.id [.delivered t e] [] f := fun t e =>
    .one rfl rfl (fun _ => rfl) (fun _ h => h) fun _ _ => rfl
  refine .via rfl rfl (fun _ => rfl) (fun _ h => h) fun m r i P hi _ => ?_
  have none : ((m.count .fault).log .error "script runtime error").messageHooks = [] :=
    congrArg (fun p => p.2.1) P.unhooked
  simp only [Instr.exec, Instr.leads, hi, Machine.showFault]
  split
  · exact ⟨[], rfl, .nil⟩
  · next e _ =>
    exact ⟨[.delivered _ e], by rw [Machine.takeMessageHook_of_none none]; rfl, delivered _ e⟩

/-- However a handler has ended, its turn goes on. -/
theorem leads_conclude (hv : v.id = id) (o : Outcome) : f.Leads id [.conclude v o] [] f := by
  have via : ∀ {l : List Instr}, (∀ m r, ((Instr.conclude v o).exec m r).next = l) →
      f.Leads id l [] f → f.Leads id [.conclude v o] [] f := fun hn h =>
    .via rfl rfl (fun _ => rfl) (fun _ h => h) fun m r _ _ _ _ => ⟨_, hn m r, h⟩
  cases o with
  | selfDelete =>
    refine via (l := [.selfDelete v.id, .record v .selfDelete]) (fun _ _ => rfl) ?_
    subst hv
    exact leads_selfDelete.append (leads_record .selfDelete)
  | fault e =>
    refine via (l := [.showFault v e, .record v (.fault e)]) (fun _ _ => rfl) ?_
    exact (leads_showFault hv e).append (leads_record (.fault e))
  | completed | eventAborted | cancelled =>
    exact via (fun _ _ => rfl) (leads_record _)

/-- Once a handler has ended that asked for nothing, nobody holds the script. -/
theorem leads_leave (hv : v.id = id) (hq : v.requests = []) (o : Outcome) :
    f.Leads id (Machine.leave v o) [] { f with holder := none } := by
  subst hv
  have unlock : f.Leads v.id [.unlock v.id] [] { f with holder := none } := by
    refine .one rfl rfl (fun _ => rfl) (fun i h => ?_) fun _ _ => rfl
    simp only [Instr.alter, Instr.change?, if_true]
    exact congrArg (fun f : Aspect => { f with holder := none }) h
  have apply : { f with holder := none }.Leads v.id [.applyRequests v o] []
      { f with holder := none } := by
    refine .via rfl rfl (fun _ => rfl) (fun _ h => h) fun m r i P hi _ => ?_
    refine ⟨[.conclude v o], ?_, leads_conclude rfl o⟩
    simp only [Instr.exec, Instr.leads, hi]
    split
    · simp [hq]
    · rfl
  exact leads_settle.append (unlock.append apply)

theorem next_act (hi : m.get? v.id = some i) {a : Action} (ha : a.simple = true)
    (hq : a.requested = []) (rest : List Action) (r : Reply) :
    ((Instr.act v (a :: rest)).exec m r).next = [.act v rest] ∨
      ∃ o, ((Instr.act v (a :: rest)).exec m r).next = Machine.leave v o := by
  simp only [Instr.exec, Instr.leads, hi]
  cases a with
  | takeArgument name =>
    left
    simp only [Machine.act]
    split <;> rfl
  | cancelIfInterrupted =>
    simp only [Machine.act]
    split
    · exact .inr ⟨_, rfl⟩
    · exact .inl rfl
  | request q => cases hq
  | set | increment | showInterrupt | showContext | showCapability => exact .inl rfl
  | _ => cases ha

/-- A quiet handler comes to its end. -/
theorem leads_act {l : List Action} (quiet : Action.Quiet l) (hv : v.id = id)
    (hq : v.requests = []) : f.Leads id [.act v l] [] { f with holder := none } := by
  subst hv
  have acts : ∀ {a : Action} {l : List Action} (i : Instance), i.aspect = f →
      (Instr.alter v.id i (.act v (a :: l))).aspect = f := fun i h => by
    simp only [Instr.alter, Instr.change?, if_true]
    exact h
  induction quiet with
  | nil =>
    refine .via rfl rfl (fun _ => rfl) (fun _ h => h) fun m r i P hi _ => ?_
    refine ⟨_, ?_, leads_leave rfl hq .completed⟩
    simp only [Instr.exec, Instr.leads, hi, Machine.act]
  | @simple a rest ha hr _ ih =>
    refine .via rfl rfl (fun _ => rfl) acts fun m r i P hi _ => ?_
    rcases next_act hi ha hr rest r with hn | ⟨o, hn⟩
    · exact ⟨_, hn, ih⟩
    · exact ⟨_, hn, leads_leave rfl hq o⟩
  | @choose next rest _ ih =>
    refine .via rfl rfl (fun _ => rfl) acts fun m r i P hi _ => ?_
    refine ⟨_, ?_, ih ⟨i.live, v.event, m.interrupted v.job⟩⟩
    simp only [Instr.exec, Instr.leads, hi, Machine.act]
  | @finish how rest =>
    refine .via rfl rfl (fun _ => rfl) acts fun m r i P hi _ => ?_
    refine ⟨_, ?_, leads_leave rfl hq how.caught⟩
    simp only [Instr.exec, Instr.leads, hi, Machine.act]

/-- The handler of an event is called in the named state, with what was detected. -/
theorem leads_enter (quiet : f.program.Quiet) (hv : v.id = id) (hq : v.requests = []) :
    f.Leads id [.enter v] [.called f.state v.event v.detected] { f with holder := none } := by
  subst hv
  have call : f.Does v.id (.enter v) [.called f.state v.event v.detected] f := by
    refine ⟨rfl, fun _ _ => rfl, fun m P => ?_, fun m r _ => Machine.core_exec r rfl,
      fun m r P => P.exec r (fun _ => nofun) fun i _ h => ?_⟩
    · obtain ⟨i, hi, rfl⟩ := P.here
      exact (Section.sights_enter v).trans (Section.on_self hi)
    · simp only [Instr.alter, Instr.change?, if_true]
      split <;> exact h
  refine .first (u := []) call fun m r P => ?_
  obtain ⟨i, hi, rfl⟩ := P.here
  obtain ⟨l, hn, hl⟩ : ∃ l, ((Instr.enter v).exec m r).next = [.act { v with state := i.state } l] ∧
      Action.Quiet l := by
    simp only [Instr.exec, Instr.leads, hi, Machine.enter]
    split
    · exact ⟨[], rfl, .nil⟩
    · next key actions hh => exact ⟨actions _, rfl, quiet _ _ _ _ hh _⟩
  exact hn ▸ leads_act hl rfl hq

/-- A worker may lock a free script. -/
theorem does_lockScript (unheld : f.holder = none) :
    f.Does v.id (.lockScript v) [] { f with holder := some .handler } where
  handles := rfl
  free m P := by
    obtain ⟨i, hi, rfl⟩ := P.here
    simp only [Instr.blocked, hi]
    exact Instance.unheld_iff.mpr unheld
  sights _ _ := rfl
  core m _ _ := Machine.core_modify m v.id (fun i => { i with holder := some .handler }) (fun _ => rfl)
    fun _ => rfl
  after m r P := P.exec r (fun _ => nofun) fun i _ h => by
    simp only [Instr.alter, Instr.change?, if_true]
    exact congrArg (fun f : Aspect => { f with holder := some .handler }) h

theorem does_readDetected : f.Does v.id (.readDetected v) [] f where
  handles := rfl
  free _ _ := rfl
  sights _ _ := rfl
  core m r P := by
    obtain ⟨i, hi, -⟩ := P.here
    simp only [Instr.exec, Instr.leads, hi]
  after _ r P := P.exec r (fun _ => nofun) fun _ _ h => h

/-- A turn that has taken an event for a handler of a free script carries the handler through. -/
theorem leads_handle (quiet : f.program.Quiet) (unheld : f.holder = none) (hv : v.id = id)
    (hq : v.requests = []) :
    f.Leads id [.readDetected v] [.called f.state v.event f.detected] f := by
  subst hv
  let locked : Aspect := { f with holder := some .handler }
  let w : Invocation := { v with detected := f.detected }
  have enter : locked.Leads v.id [.enter w] [.called f.state v.event f.detected] f := by
    have := leads_enter (f := locked) (v := w) quiet rfl hq
    rwa [show ({ locked with holder := none } : Aspect) = f by rw [← unheld]] at this
  have lock : f.Leads v.id [.lockScript w] [.called f.state v.event f.detected] f :=
    .first (s := []) (does_lockScript (v := w) unheld) fun _ _ _ => leads_settle.append enter
  refine .first (s := []) does_readDetected fun m r P => ?_
  obtain ⟨i, hi, rfl⟩ := P.here
  simp only [Instr.exec, Instr.leads, hi]
  exact lock

/-! ## A switch of the named state -/

/-- The mask of a free script is told, and the script is free again. -/
theorem leads_publishMask (unheld : f.holder = none) : f.Leads id [.publishMask id] [] f := by
  let told : Aspect := { f with holder := some (.errand .mask) }
  have letGo : told.Leads id [.letGo id .mask] [] f := by
    refine .one rfl rfl (fun _ => rfl) (fun i h => ?_) fun _ _ => rfl
    rw [show Instr.alter id i (.letGo id .mask) = i.letGo .mask from if_pos rfl]
    have holder : i.holder = some (.errand .mask) := congrArg Aspect.holder h
    rw [show f = { told with holder := none } by rw [← unheld], ← h]
    simp [Instance.aspect, Instance.letGo, holder]
  refine .via (e := told) rfl rfl (fun _ => rfl) (fun i h => ?_) fun m r i P hi h => ?_
  · rw [show Instr.alter id i (.publishMask id) = i.publish from if_pos rfl]
    have holder : i.holder = none := (congrArg Aspect.holder h).trans unheld
    rw [show told = { i.aspect with holder := some (.errand .mask) } by rw [h]]
    simp [Instance.aspect, Instance.publish, holder]
  · have free : i.held = false := Instance.unheld_iff.mpr ((congrArg Aspect.holder h).trans unheld)
    exact ⟨_, by simp only [Instr.exec, Instr.leads, hi, free]; rfl, letGo⟩

/-- A reserved record switches the named state, if it says to which. -/
theorem leads_switch (m : Machine) (unheld : f.holder = none) {e : Event}
    (he : e.isSetState = true) :
    f.Leads id (m.switchState id e).2 [] { f with state := e.switch f.state } := by
  unfold Machine.switchState Event.switch
  rw [if_pos he]
  cases e.args with
  | nil => exact .nil
  | cons target _ =>
    let g : Aspect := { f with state := target.text }
    have replace : f.Leads id [.replaceState id target.text] [] g := by
      refine .one rfl rfl (fun _ => rfl) (fun i h => ?_) fun _ _ => rfl
      simp only [Instr.alter, Instr.change?, if_true]
      exact congrArg (fun f : Aspect => { f with state := target.text }) h
    have remove : g.Leads id [.removePlugins id] [] g :=
      .one rfl rfl (fun _ => rfl) (fun _ h => h) fun _ _ => Instr.next_about
    have count : g.Leads id [.count (.executed "set_state")] [] g :=
      .one rfl rfl (fun _ => rfl) (fun _ h => h) fun _ _ => rfl
    have publish : g.Leads id [.publishMask id] [] g := leads_publishMask unheld
    exact replace.append (remove.append (publish.append count))

end Aspect

/-! ## A turn -/

namespace Machine.Presents

variable {m : Machine} {id ticket n : Nat} {f : Aspect} {s : Slot} {e : Event} {q : Queue}

/-- The outstanding turn takes an event, which is answered before the turn is finished. -/
theorem takes (P : m.Presents id f) (quiet : f.program.Quiet) (unheld : f.holder = none)
    (hs : m.core.slots[id]? = some s) (ho : s.owns ticket = true)
    (hp : s.queue.pop? = some (e, q)) (r : Reply) :
    ∃ l, ((Instr.takeTurn id ticket n).exec m r).next = l ++ [.finishTurn id ticket] ∧
      ((Instr.takeTurn id ticket n).exec m r).machine.core =
        m.core.revise id ⟨{ s with queue := q }, false⟩ ∧
      ((Instr.takeTurn id ticket n).exec m r).machine.Presents id
        { f with detected := e.detected } ∧
      ({ f with detected := e.detected } : Aspect).Leads id l (e.answer f.state)
        { f with state := e.switch f.state, detected := e.detected } := by
  obtain ⟨i, hi, rfl, rfl⟩ := P.here_slot hs
  obtain ⟨core, alter, next⟩ := Machine.takes (n := n) hi ho hp r
  refine ⟨_, next, core, P.exec r (fun _ => nofun) fun j hj h => ?_, ?_⟩
  · obtain rfl := Option.some.inj (hi.symm.trans hj)
    rw [alter]
    rfl
  · unfold Event.answer
    split
    · next he => exact Aspect.leads_switch (f := { i.aspect with detected := e.detected }) m unheld he
    · next he =>
      rw [show e.switch i.aspect.state = i.aspect.state from if_neg he]
      exact Aspect.leads_handle quiet unheld rfl rfl

/-- A job whose turn is not the outstanding one does nothing. -/
theorem skips (P : m.Presents id f) (hs : m.core.slots[id]? = some s)
    (ho : s.owns ticket = false) (r : Reply) : (Instr.takeTurn id ticket n).exec m r =
      ⟨m.log .debug "stale turn skipped", [], r⟩ := by
  obtain ⟨i, hi, -, rfl⟩ := P.here_slot hs
  simp [Instr.exec, Instr.leads, hi, takeTurn, Instance.owns, ho]

/-- The end of the outstanding turn clears what is shown of its event, and hands the slot on. -/
theorem finishes (P : m.Presents id f) (hs : m.core.slots[id]? = some s)
    (ho : s.owns ticket = true) (r : Reply) :
    ((Instr.finishTurn id ticket).exec m r).next = [] ∧
      ((Instr.finishTurn id ticket).exec m r).machine.core =
        m.core.revise id (s.handOn ticket) ∧
      ((Instr.finishTurn id ticket).exec m r).machine.Presents id { f with detected := [] } := by
  obtain ⟨i, hi, rfl, rfl⟩ := P.here_slot hs
  refine ⟨Instr.next_about, ?_, P.exec r (fun _ => nofun) fun j hj h => ?_⟩
  · simp only [Instr.exec, Instr.about, hi, Instr.plain, core_finishTurn hi]
  · obtain rfl := Option.some.inj (hi.symm.trans hj)
    simp only [Instr.alter, Instr.change?, Instance.owns, ho, if_true]
    rfl

end Machine.Presents

end ScriptHost
