import ScriptHost.Proofs.Engine.Figure

/-!
# What a turn comes to

A turn of a free instance is told by its figure too, if the handlers of its
program do the same in every copy of it (`Program.Steady`): what they do must
not depend on how often they have run, and they act through what they are given
only. By `Figure.turn` and `Figure.call`, any list of acts has the same account
with all free instances of one figure (`Figure.performs`).
-/

namespace ScriptHost

namespace Action

/-- Actions that look at what the handler has been given, write the script's own variables, or ask
something of the instance. -/
def simple : Action → Bool
  | .set _ _ | .takeArgument _ | .increment _ | .request _ | .showInterrupt | .cancelIfInterrupted
  | .showContext | .showCapability _ => true
  | _ => false

/-- What an action asks of the instance. -/
def requested : Action → List Request
  | .request q => [q]
  | _ => []

/-- A handler that goes through with its actions by itself: it calls no operations and is not kept
waiting. -/
inductive Confined : List Action → Prop where
  | nil : Confined []
  | simple {a : Action} {rest : List Action} : a.simple = true → Confined rest →
      Confined (a :: rest)
  | choose {next : View → List Action} {rest : List Action} :
      (∀ view, Confined (next view ++ rest)) → Confined (.choose next :: rest)
  | finish {how : Finish} {rest : List Action} : Confined (.finish how :: rest)

end Action

/-- A program whose handlers do in every run what they do in the first, and by themselves. -/
def Program.Steady (p : Program) : Prop :=
  ∀ state name key actions, p.handler state name = some (key, actions) →
    Action.Confined (actions 0) ∧ ∀ n, actions n = actions 0

/-! ## The run of a handler -/

section Handler

variable {m : Machine} {v : Invocation} {i : Instance}

/-- One action of a handler, its event and the interrupt being what they are. -/
theorem Machine.Stands.act (S : m.Stands v.id i) (a : Action) (rest : List Action) (r : Reply) :
    ∃ p, ((Instr.act v (a :: rest)).exec m r).machine.Stands v.id
      { i with live := a.write v.event i.live, startParam := p } := by
  obtain ⟨p, S'⟩ := S.still r (a := .act v (a :: rest)) (.of_minor rfl)
  simp only [Instr.alter, Instr.change?, if_true] at S'
  exact ⟨p, S'⟩

theorem next_act_simple (S : m.Stands v.id i)
    (hc : i.slot.current = some ⟨v.ticket, v.job⟩) {a : Action} (ha : a.simple = true)
    (rest : List Action) (r : Reply) : ((Instr.act v (a :: rest)).exec m r).next =
      [.act { v with requests := v.requests ++ a.requested } rest] := by
  have hi : m.interrupted v.job = false := (S.not_interrupted hc).1
  simp only [Instr.exec, Instr.leads, S.here]
  cases a with
  | takeArgument name => simp only [Machine.act]; split <;> simp [Action.requested]
  | cancelIfInterrupted => simp [Machine.act, hi, Action.requested]
  | set | increment | request | showInterrupt | showContext | showCapability =>
    simp [Machine.act, Action.requested]
  | _ => cases ha

/-- A confined handler comes to its end. What it has made of the variables, what it asks for and its
outcome depend on nothing but the variables, the event and what it has asked for before. -/
theorem Action.Confined.runs {l : List Action} (h : Confined l) (e : Event) (w : Vars)
    (q : List Request) : ∃ w' q' o, ∀ (m : Machine) (v : Invocation) (i : Instance) rest r,
      m.Stands v.id i → i.live = w → i.slot.current = some ⟨v.ticket, v.job⟩ → v.event = e →
      v.requests = q → ∃ m' r' p, Thread.Goes v.id m ⟨.act v l :: rest, r⟩ [] m'
        ⟨Machine.leave { v with requests := q' } o ++ rest, r'⟩ ∧
        m'.Stands v.id { i with live := w', startParam := p } := by
  induction h generalizing w q with
  | nil =>
    refine ⟨w, q, .completed, ?_⟩
    rintro m v i rest r S rfl hc rfl rfl
    refine ⟨m, r, i.startParam, .step rfl rfl ?_, S⟩
    rw [show (Instr.act v []).exec m r = ⟨m, Machine.leave v .completed, r⟩ by
      simp only [Instr.exec, Instr.leads, S.here, Machine.act]]
    exact .refl _ _ _
  | @simple a rest ha _ ih =>
    obtain ⟨w', q', o, run⟩ := ih (a.write e w) (q ++ a.requested)
    refine ⟨w', q', o, ?_⟩
    rintro m v i later r S rfl hc rfl rfl
    obtain ⟨p, S'⟩ := S.act a rest r
    obtain ⟨m', r', p', go, S''⟩ := run _ { v with requests := v.requests ++ a.requested } _ later
      ((Instr.act v (a :: rest)).exec m r).reply S' rfl hc rfl rfl
    refine ⟨m', r', p', .step rfl rfl ?_, S''⟩
    rw [next_act_simple S hc ha]
    exact go
  | @choose next rest _ ih =>
    obtain ⟨w', q', o, run⟩ := ih ⟨w, e, false⟩ w q
    refine ⟨w', q', o, ?_⟩
    rintro m v i later r S rfl hc rfl rfl
    obtain ⟨m', r', p', go, S'⟩ := run m v i later r S rfl hc rfl rfl
    refine ⟨m', r', p', .step rfl rfl ?_, S'⟩
    have hi : m.interrupted v.job = false := (S.not_interrupted hc).1
    rw [show (Instr.act v (.choose next :: rest)).exec m r =
        ⟨m, [.act v (next ⟨i.live, v.event, false⟩ ++ rest)], r⟩ by
      simp only [Instr.exec, Instr.leads, S.here, Machine.act, hi]]
    exact go
  | @finish how rest =>
    refine ⟨w, q, how.caught, ?_⟩
    rintro m v i later r S rfl hc rfl rfl
    refine ⟨m, r, i.startParam, .step rfl rfl ?_, S⟩
    rw [show (Instr.act v (.finish how :: rest)).exec m r =
        ⟨m, Machine.leave v how.caught, r⟩ by
      simp only [Instr.exec, Instr.leads, S.here, Machine.act]]
    exact .refl _ _ _

end Handler

/-! ## Before and after the run -/

/-- What the handler of an event does; nothing, if the state has none. -/
def Figure.actions (f : Figure) (e : Event) : List Action :=
  match f.program.handler f.state e.name with
  | none => []
  | some (_, actions) => actions 0

theorem Figure.confined_actions {f : Figure} (steady : f.program.Steady) (e : Event) :
    Action.Confined (f.actions e) := by
  unfold actions
  split
  · exact .nil
  · next h => exact (steady _ _ _ _ h).1

section Around

variable {f : Figure} {m : Machine} {v : Invocation} {i : Instance}

theorem Instr.Still.lockScript (v : Invocation) : (Instr.lockScript v).Still where
  ne_op _ := nofun
  slots m _ := by
    rw [show ((Instr.lockScript v).exec m _).machine.core = m.core from
      Machine.core_modify m v.id _ (fun _ => rfl) fun _ => rfl]
  jobs m _ := by
    rw [show ((Instr.lockScript v).exec m _).machine.core = m.core from
      Machine.core_modify m v.id _ (fun _ => rfl) fun _ => rfl]

/-- Before a handler begins, the script is locked and what was deferred is applied: then its own
variables are those that others see. -/
theorem Machine.Free.locks (F : m.Free v.id i) (rest : List Instr) (r : Reply) : ∃ m' r' p,
    Thread.Goes v.id m ⟨.readDetected v :: rest, r⟩ [] m'
      ⟨.enter { v with detected := i.detected } :: rest, r'⟩ ∧
    m'.Stands v.id { i with
      holder := some .handler, live := i.vars, pendingEdit := none, maskStale := false
      startParam := p } := by
  let v' : Invocation := { v with detected := i.detected }
  obtain ⟨p, S⟩ := F.toStands.still r (.lockScript v')
  simp only [Instr.alter, Instr.change?, v', if_true] at S
  obtain ⟨p', S'⟩ := S.still r (a := .settle v.id) (.of_minor rfl)
  simp only [Instr.alter, Instr.change?, if_true] at S'
  have free : (Instr.lockScript v').blocked m = false := by
    simp only [Instr.blocked, v', F.here, F.unheld]
  refine ⟨((Instr.settle v.id).exec ((Instr.lockScript v').exec m r).machine r).machine, r, p',
    .step rfl rfl ?_, ?_⟩
  rotate_left
  · rw [← F.settled]
    exact S'
  · rw [show (Instr.readDetected v).exec m r = ⟨m, [.lockScript v'], r⟩ by
      simp only [Instr.exec, Instr.leads, F.here, v']]
    exact .step free rfl (.step rfl rfl (.refl _ _ _))

/-- A handler is called, and counted. -/
theorem Machine.Stands.enters (S : m.Stands v.id i) (steady : i.program.Steady)
    (rest : List Instr) (r : Reply) : ∃ m' r' n p,
    Thread.Goes v.id m ⟨.enter v :: rest, r⟩ [.called i.state v.event v.detected] m'
      ⟨.act { v with state := i.state } (i.figure.actions v.event) :: rest, r'⟩ ∧
    m'.Stands v.id { i with runs := n, startParam := p } := by
  obtain ⟨p, S'⟩ := S.still r (a := .enter v) (.of_minor rfl)
  have next : ((Instr.enter v).exec m r).next =
      [.act { v with state := i.state } (i.figure.actions v.event)] := by
    simp only [Instr.exec, Instr.leads, S.here, Machine.enter, Figure.actions, Instance.figure]
    cases hh : i.program.handler i.state v.event.name with
    | none => simp
    | some p => simp [(steady _ _ _ _ hh).2 _]
  have go : Thread.Goes v.id m ⟨.enter v :: rest, r⟩ (Section.sights v.id ⟨m, .enter v⟩) _ _ :=
    .one rfl
  rw [next, Section.sights_enter, Section.on_self S.here] at go
  simp only [Instr.alter, Instr.change?, if_true] at S'
  split at S'
  · exact ⟨_, _, _, p, go, S'⟩
  · exact ⟨_, _, _, p, go, S'⟩

/-- After a handler has ended, others see what it made of the variables, and nobody holds the
script. -/
theorem Machine.Stands.unlocks (S : m.Stands v.id i) (hp : i.pendingEdit = none)
    (rest : List Instr) (r : Reply) : ∃ m' r' j,
    Thread.Goes v.id m ⟨.settle v.id :: .unlock v.id :: rest, r⟩ [] m' ⟨rest, r'⟩ ∧
    m'.Free v.id j ∧ j.figure = { i.figure with vars := i.live } ∧
    j.slot.current = i.slot.current := by
  obtain ⟨p, S'⟩ := S.still r (a := .settle v.id) (.of_minor rfl)
  simp only [Instr.alter, Instr.change?, Instance.settle, hp, if_true] at S'
  obtain ⟨q, S''⟩ := S'.still r (a := .unlock v.id) (.of_minor rfl)
  simp only [Instr.alter, Instr.change?, if_true] at S''
  exact ⟨((Instr.unlock v.id).exec ((Instr.settle v.id).exec m r).machine r).machine, r, _,
    .step rfl rfl (.step rfl rfl (.refl _ _ _)), ⟨S'', rfl, rfl⟩, rfl, rfl⟩

end Around

/-! ## What an outcome leads to -/

namespace Figure

variable {f : Figure}

theorem leads_record (v : Invocation) (o : Outcome) :
    f.Leads true (fun id => [.record { v with id := id } o]) [] f :=
  .idle (fun _ _ => rfl) (fun _ => rfl) (fun _ => .of_minor rfl) (fun _ _ _ => rfl)
    fun _ _ _ => Instr.next_about

/-- The flag goes up, whether the world knows the entity or not. -/
theorem leads_selfDelete :
    f.Leads true (fun id => [.selfDelete id]) [] { f with deleting := true } := by
  have deleted : ∀ {g : Figure} (e : Entity), g.Leads true (fun _ => [.deleted e]) [] g := fun e =>
    .idle (fun _ _ => rfl) (fun _ => rfl) (fun _ => .of_minor rfl) (fun _ _ _ => rfl)
      fun _ _ _ => rfl
  refine .first (fun _ _ => rfl) (fun _ => rfl) (fun _ => .of_minor rfl) ?_
  rintro m id i F rfl r
  have flag : ∀ p j, j = { (Instr.selfDelete id).alter id i with slot := i.slot, startParam := p } →
      j.held = false ∧ j.settle.live = j.vars ∧ j.figure = { i.figure with deleting := true } := by
    rintro p j rfl
    simp only [Instr.alter, Instr.change?, if_true]
    exact ⟨F.unheld, F.settled, rfl⟩
  have none : ((m.modify id fun i => { i with selfDeleting := true }).log .info
      "script deleting its own entity").deleteHooks = [] := congrArg (fun p => p.2.2) F.unhooked
  cases he : (m.modify id fun i => { i with selfDeleting := true }).entity? i.localId with
  | none =>
    refine ⟨fun _ => [], _, ?_, flag, .nil⟩
    simp only [Instr.exec, Instr.leads, F.here, Machine.selfDelete, he]
  | some e =>
    refine ⟨fun _ => [.deleted e], _, ?_, flag, deleted e⟩
    simp only [Instr.exec, Instr.leads, F.here, Machine.selfDelete, he,
      Machine.takeDeleteHook_of_none none, List.nil_append]

theorem leads_showFault (v : Invocation) (o : Fault) :
    f.Leads true (fun id => [.showFault { v with id := id } o]) [] f := by
  have delivered : ∀ (t : String) (e : Entity), f.Leads true (fun _ => [.delivered t e]) [] f :=
    fun t e => .idle (fun _ _ => rfl) (fun _ => rfl) (fun _ => .of_minor rfl) (fun _ _ _ => rfl)
      fun _ _ _ => rfl
  refine .via (fun _ _ => rfl) (fun _ => rfl) (fun _ => .of_minor rfl) (fun _ _ _ => rfl) ?_
  rintro m id i F rfl r
  have none : ((m.count .fault).log .error "script runtime error").messageHooks = [] :=
    congrArg (fun p => p.2.1) F.unhooked
  cases he : ((m.count .fault).log .error "script runtime error").entity? i.localId with
  | none =>
    refine ⟨fun _ => [], ?_, .nil⟩
    simp only [Instr.exec, Instr.leads, F.here, Machine.showFault, he]
  | some e =>
    refine ⟨fun _ => [.delivered (o.visibleText i.limits.errorMessageLimit) e], ?_, delivered _ e⟩
    simp only [Instr.exec, Instr.leads, F.here, Machine.showFault, he,
      Machine.takeMessageHook_of_none none, List.nil_append]

/-- The figure once a handler has ended so. -/
def concluded (f : Figure) (o : Outcome) : Figure :=
  { f with deleting := f.deleting || o == .selfDelete }

theorem leads_conclude (v : Invocation) (o : Outcome) :
    f.Leads true (fun id => [.conclude { v with id := id } o]) [] (f.concluded o) := by
  have via : ∀ {l : Nat → List Instr}, f.Leads true l [] (f.concluded o) →
      (∀ m id, (Machine.conclude m { v with id := id } o).2 = l id) →
      f.Leads true (fun id => [.conclude { v with id := id } o]) [] (f.concluded o) := fun h hn =>
    .via (fun _ _ => rfl) (fun _ => rfl) (fun _ => .of_minor rfl) (fun _ _ _ => rfl)
      fun _ _ _ => ⟨_, hn _ _, h⟩
  have same : o ≠ .selfDelete → f.concluded o = f := fun h => by
    simp [concluded, beq_eq_false_iff_ne.mpr h]
  cases o with
  | selfDelete =>
    refine via (l := fun id => [.selfDelete id, .record { v with id := id } .selfDelete]) ?_
      fun _ _ => rfl
    have := (leads_selfDelete (f := f)).append (leads_record v .selfDelete)
    simpa [concluded] using this
  | fault o =>
    refine via (l := fun id => [.showFault { v with id := id } o, .record { v with id := id } (.fault o)])
      ?_ fun _ _ => rfl
    rw [same nofun]
    exact (leads_showFault v o).append (leads_record v (.fault o))
  | completed | eventAborted | cancelled =>
    refine via ?_ fun _ _ => rfl
    rw [same nofun]
    exact leads_record v _

/-- What a handler asked for is done as long as its turn is the outstanding one; then its outcome is
recorded. -/
theorem concludes (q : List Request) (o : Outcome) : ∃ s g, g.event = f.event ∧
    g.program = f.program ∧ ∀ (m : Machine) (v : Invocation) (i : Instance) rest r,
      m.Free v.id i → i.figure = f → i.slot.current = some ⟨v.ticket, v.job⟩ → v.requests = q →
      ∃ m' j r', Thread.Goes v.id m ⟨.applyRequests v o :: rest, r⟩ s m' ⟨rest, r'⟩ ∧
        m'.Free v.id j ∧ j.figure = g ∧ j.slot.current = i.slot.current := by
  obtain ⟨s, g, h, he, hp⟩ := answers_requests (f := f) q
  refine ⟨s, g.concluded o, he, hp, ?_⟩
  rintro m v i rest r F e hc rfl
  have owns : i.owns v.ticket = true := Slot.owns_iff.mpr ⟨_, hc, rfl⟩
  have all := h.append (leads_conclude v o)
  obtain ⟨m', j, r', go, F', e', k⟩ := all m v.id i F e rest r
  refine ⟨m', j, r', .step rfl rfl ?_, F', e', (k rfl _ hc).trans hc.symm⟩
  rw [show (Instr.applyRequests v o).exec m r =
      ⟨m, v.requests.flatMap (Instr.request v.id) ++ [.conclude v o], r⟩ by
    simp only [Instr.exec, Instr.leads, F.here, owns, if_true]]
  rw [List.append_nil] at go
  exact go

/-- The whole of a handler: it is called, comes to its end, and what it asked for is done. -/
theorem handles (steady : f.program.Steady) (e : Event) : ∃ s g, g.event = f.event ∧
    g.program = f.program ∧ ∀ (m : Machine) (v : Invocation) (i : Instance) rest r,
      m.Free v.id i → i.figure = f → i.slot.current = some ⟨v.ticket, v.job⟩ →
      i.detected = e.detected → v.event = e → v.requests = [] →
      ∃ m' j r', Thread.Goes v.id m ⟨.readDetected v :: rest, r⟩ s m' ⟨rest, r'⟩ ∧
        m'.Free v.id j ∧ j.figure = g ∧ j.slot.current = i.slot.current := by
  obtain ⟨w, q, o, run⟩ := (f.confined_actions steady e).runs e f.vars []
  obtain ⟨s, g, he, hp, done⟩ := concludes (f := { f with vars := w }) q o
  refine ⟨.called f.state e e.detected :: s, g, he, hp, ?_⟩
  rintro m v i rest r F rfl hc hd rfl hq
  obtain ⟨m₁, r₁, p₁, go₁, S₁⟩ := F.locks rest r
  obtain ⟨m₂, r₂, n, p₂, go₂, S₂⟩ := Machine.Stands.enters
    (v := { v with detected := i.detected }) S₁ steady rest r₁
  obtain ⟨m₃, r₃, p₃, go₃, S₃⟩ := run m₂ { v with detected := i.detected, state := i.state } _ rest r₂
    S₂ rfl hc rfl hq
  obtain ⟨m₄, r₄, j₄, go₄, F₄, e₄, c₄⟩ := S₃.unlocks rfl
    (.applyRequests { v with detected := i.detected, state := i.state, requests := q } o :: rest) r₃
  obtain ⟨m₅, j₅, r₅, go₅, F₅, e₅, c₅⟩ := done m₄
    { v with detected := i.detected, state := i.state, requests := q } j₄ rest r₄ F₄ e₄ (c₄.trans hc)
    rfl
  have go := go₁.trans (go₂.trans (go₃.trans (go₄.trans go₅)))
  exact ⟨m₅, j₅, r₅, hd ▸ go, F₅, e₅, c₅.trans c₄⟩

end Figure

/-- The end of a turn: the slot is handed on, and the job has come to its end. -/
theorem Machine.Free.finishes {m : Machine} {id : Nat} {i : Instance} (F : m.Free id i)
    {turn : Turn} (hc : i.slot.current = some turn) (rest : List Instr) (r : Reply) :
    ∃ m' j r', Thread.Goes id m ⟨.finishTurn id turn.ticket :: .jobDone turn.job :: rest, r⟩ [] m'
      ⟨rest, r'⟩ ∧ m'.Free id j ∧ j.figure = { i.figure with event := none } := by
  have owns : i.slot.owns turn.ticket = true := Slot.owns_iff.mpr ⟨turn, hc, rfl⟩
  obtain ⟨p, S⟩ := F.toStands.revise (a := .finishTurn id turn.ticket)
    (v := i.slot.handOn turn.ticket) r (fun _ => nofun)
    (by simp only [Instr.exec, Instr.about, F.here]; exact core_finishTurn F.here _)
    (Slot.sound_handOn _) (fun _ => by
      rw [Slot.running_handOn]; exact F.orderly.running (by simp [hc]))
  simp only [Instr.alter, Instr.change?, Instance.owns, owns, if_true] at S
  obtain ⟨j, hj, -⟩ := F.orderly.job turn hc
  have old := Core.job?_le hj
  -- The job that has ended is not that of the turn which may now be outstanding.
  have other := S.orderly.rephase (Core.job?_pos hj) (p := .done) fun next hn he => by
    unfold Slot.handOn at hn
    simp only [owns, if_true] at hn
    split at hn
    · simp only [Slot.ask, if_true, Option.some.injEq] at hn
      rw [← hn] at he
      simp only at he
      omega
    · cases hn
  have next : (Instr.finishTurn id turn.ticket).exec m r =
      ⟨((Instr.finishTurn id turn.ticket).exec m r).machine, [], r⟩ := by
    simp only [Instr.exec, Instr.about, F.here, Instr.plain]
  refine ⟨((Instr.finishTurn id turn.ticket).exec m r).machine.setPhase turn.job .done, _, r,
    .step rfl rfl ?_, ⟨⟨S.here, S.unhooked, other⟩, F.unheld, F.settled⟩, ?_⟩
  · rw [next]
    exact .step rfl rfl (.refl _ _ _)
  · simp only [Instance.figure, Instance.clearSnapshot, apply_ite Slot.running,
      apply_ite Slot.queue, Slot.ask, Slot.running_handOn, Slot.queue_handOn, ite_self]

theorem Machine.next_switchState (m n : Machine) (id : Nat) (e : Event) :
    (m.switchState id e).2 = (n.switchState id e).2 := by
  unfold switchState
  split <;> rfl

/-- What taking the next event for the outstanding turn comes to. -/
theorem Machine.takes {m : Machine} {id ticket n : Nat} {i : Instance} (hi : m.get? id = some i)
    (owns : i.slot.owns ticket = true) {e : Event} {q : Queue}
    (hp : i.slot.queue.pop? = some (e, q)) (r : Reply) :
    ((Instr.takeTurn id ticket n).exec m r).machine.core =
      m.core.revise id ⟨{ i.slot with queue := q }, false⟩ ∧
    (Instr.takeTurn id ticket n).alter id i = i.take e q ∧
    ((Instr.takeTurn id ticket n).exec m r).next =
      (if e.isSetState then (m.switchState id e).2
        else [.readDetected ⟨id, ticket, n, e, "", [], []⟩]) ++ [.finishTurn id ticket] := by
  have revised := core_modify_slot (slot_of_get? hi) (·.take e q)
    (fun s => { s with queue := q }) (fun _ => rfl) fun _ => rfl
  refine ⟨?_, by simp [Instr.alter, Instr.change?, Instance.owns, owns, hp], ?_⟩
  · simp only [Instr.exec, Instr.leads, hi, takeTurn, Instance.owns, owns, hp, if_true]
    split
    · rw [core_switchState, revised]
    · exact revised
  · simp only [Instr.exec, Instr.leads, hi, takeTurn, Instance.owns, owns, hp, if_true]
    split
    · rw [next_switchState (m.modify id _) m]
    · rfl

/-- A worker takes the next event for the outstanding turn. -/
theorem Machine.Free.takes {m : Machine} {id : Nat} {i : Instance} (F : m.Free id i) {turn : Turn}
    (hc : i.slot.current = some turn) {e : Event} {q : Queue}
    (hp : i.slot.queue.pop? = some (e, q)) (r : Reply) :
    (∃ p, ((Instr.takeTurn id turn.ticket turn.job).exec m r).machine.Free id
      { i.take e q with startParam := p }) ∧
    ((Instr.takeTurn id turn.ticket turn.job).exec m r).next =
      (if e.isSetState then (m.switchState id e).2
        else [.readDetected ⟨id, turn.ticket, turn.job, e, "", [], []⟩]) ++
      [.finishTurn id turn.ticket] := by
  have owns : i.slot.owns turn.ticket = true := Slot.owns_iff.mpr ⟨turn, hc, rfl⟩
  obtain ⟨core, alter, next⟩ := Machine.takes (n := turn.job) F.here owns hp r
  obtain ⟨p, S⟩ := F.toStands.revise (a := .takeTurn id turn.ticket turn.job) r (fun _ => nofun) core
    (Slot.sound_take owns) (fun _ => F.orderly.running (by simp [hc]))
  rw [alter] at S
  exact ⟨⟨p, S, F.unheld, F.settled⟩, next⟩

/-- A turn, from what it leads to before its end. -/
theorem Machine.Free.turns {m n : Machine} {id : Nat} {j : Instance} {turn : Turn}
    {l rest : List Instr} {s : List Sight} {r r' : Reply}
    (hn : ((Instr.takeTurn id turn.ticket turn.job).exec m r).next =
      l ++ [.finishTurn id turn.ticket])
    (go : Thread.Goes id ((Instr.takeTurn id turn.ticket turn.job).exec m r).machine
      ⟨l ++ .finishTurn id turn.ticket :: .jobDone turn.job :: rest,
        ((Instr.takeTurn id turn.ticket turn.job).exec m r).reply⟩ s n
      ⟨.finishTurn id turn.ticket :: .jobDone turn.job :: rest, r'⟩)
    (F : n.Free id j) (hc : j.slot.current = some turn) : ∃ m' j' r',
      Thread.Goes id m ⟨.takeTurn id turn.ticket turn.job :: .jobDone turn.job :: rest, r⟩ s m'
        ⟨rest, r'⟩ ∧ m'.Free id j' ∧ j'.figure = { j.figure with event := none } := by
  obtain ⟨m', j', r'', go', F', e'⟩ := F.finishes hc rest r'
  refine ⟨m', j', r'', .step rfl rfl ?_, F', e'⟩
  rw [hn, List.append_assoc]
  have := go.trans go'
  rwa [List.append_nil] at this

namespace Figure

variable {f : Figure}

theorem answers_switchState (m : Machine) (e : Event) :
    f.Answers true fun id => (m.switchState id e).2 := by
  unfold Machine.switchState
  cases e.args with
  | nil => exact .nil
  | cons target _ =>
    exact ⟨_, _, (leads_replaceState target.text).append (leads_removePlugins.append
      (leads_publishMask.append (leads_count _))), rfl, rfl⟩

/-- What becomes of the event that a turn takes, and of the turn. -/
theorem turns (steady : f.program.Steady) (e : Event) (q : Queue) :
    ∃ s g, g.event = none ∧ g.program = f.program ∧ ∀ (m : Machine) (id : Nat) (i : Instance)
      (turn : Turn) rest r, m.Free id i → i.figure = f → i.slot.current = some turn →
      i.slot.queue.pop? = some (e, q) → ∃ m' j r',
        Thread.Goes id m ⟨.takeTurn id turn.ticket turn.job :: .jobDone turn.job :: rest, r⟩ s m'
          ⟨rest, r'⟩ ∧ m'.Free id j ∧ j.figure = g := by
  by_cases hs : e.isSetState = true
  · obtain ⟨s, g, h, -, hp⟩ := answers_switchState (f := { f with queue := q }) default e
    refine ⟨s, { g with event := none }, rfl, hp, ?_⟩
    rintro m id i turn rest r F rfl hc hp
    obtain ⟨⟨p, F₁⟩, hn⟩ := F.takes hc hp r
    rw [if_pos hs, Machine.next_switchState m default] at hn
    obtain ⟨m', j, r', go, F', e', k⟩ := h _ id _ F₁
      (by simp only [Instance.figure, Instance.take, hs, if_true]; rfl)
      (.finishTurn id turn.ticket :: .jobDone turn.job :: rest)
      ((Instr.takeTurn id turn.ticket turn.job).exec m r).reply
    exact e' ▸ Machine.Free.turns hn go F' (k rfl turn hc)
  · obtain ⟨s, g, -, hp, h⟩ :=
      handles (f := { f with queue := q, event := some e.name }) steady e
    refine ⟨s, { g with event := none }, rfl, hp, ?_⟩
    rintro m id i turn rest r F rfl hc hp
    obtain ⟨⟨p, F₁⟩, hn⟩ := F.takes hc hp r
    rw [if_neg hs] at hn
    obtain ⟨m', j, r', go, F', e', k⟩ := h _ ⟨id, turn.ticket, turn.job, e, "", [], []⟩ _
      (.finishTurn id turn.ticket :: .jobDone turn.job :: rest)
      ((Instr.takeTurn id turn.ticket turn.job).exec m r).reply F₁
      (by simp only [Instance.figure, Instance.take, hs]; rfl) hc rfl rfl rfl
    exact e' ▸ Machine.Free.turns hn go F' (k.trans hc)

/-- A turn with an empty queue is not seen, and leaves everything as it is. -/
theorem idles {m : Machine} {id : Nat} {i : Instance} {turn : Turn} (F : m.Free id i)
    (hc : i.slot.current = some turn) (hq : i.slot.queue.events = []) (rest : List Instr)
    (r : Reply) : ∃ m' j r',
      Thread.Goes id m ⟨.takeTurn id turn.ticket turn.job :: .jobDone turn.job :: rest, r⟩ [] m'
        ⟨rest, r'⟩ ∧ m'.Free id j ∧ j.figure = i.figure := by
  have owns : i.slot.owns turn.ticket = true := Slot.owns_iff.mpr ⟨turn, hc, rfl⟩
  have hp : i.slot.queue.pop? = none := by simp [Queue.pop?, hq]
  have step : (Instr.takeTurn id turn.ticket turn.job).exec m r =
      ⟨m.modify id Instance.release, [], r⟩ := by
    simp only [Instr.exec, Instr.leads, F.here, Machine.takeTurn, Instance.owns, owns, hp, if_true]
  have rests : ∀ c : Core, c.Orderly i.release.slot := fun _ =>
    .of_rest (by simp [Slot.hasWork, Instance.release, Queue.isEmpty, hq]) rfl
  refine ⟨(m.modify id Instance.release).setPhase turn.job .done, i.release, r, .step rfl rfl ?_,
    ⟨⟨?_, F.unhooked, rests _⟩, F.unheld, F.settled⟩, rfl⟩
  · rw [step]
    exact .step rfl rfl (.refl _ _ _)
  · show (m.modify id Instance.release).get? id = _
    rw [Machine.get?_modify_self, F.here]
    rfl

/-- The next turn of any free instance of the figure, run between turns, is seen to do the same, and
leaves the same figure. -/
theorem turn (he : f.event = none) (steady : f.program.Steady) : ∃ s g, g.event = none ∧
    g.program = f.program ∧ ∀ m id i, Machine.Free m id i → i.figure = f →
      ∃ m' j, m.Carries id .turn s m' ∧ m'.Free id j ∧ j.figure = g := by
  -- Whether a turn is outstanding shows only if there is an event to be taken.
  have none : ∀ {m : Machine} {id : Nat} {i : Instance}, m.Free id i → i.figure = f →
      i.slot.current = none →
      ∃ m' j, m.Carries id .turn [] m' ∧ m'.Free id j ∧ j.figure = f := fun F e hc =>
    ⟨_, _, ⟨_, _, .nothing, by simp only [Machine.begin?, F.here, Option.map_some, hc],
      .refl _ _ _⟩, F, e⟩
  have claimed : ∀ {m : Machine} {id : Nat} {i : Instance} {turn : Turn}, m.Free id i →
      i.slot.current = some turn → (m.setPhase turn.job .running).Free id i := fun F hc => by
    obtain ⟨j, hj, -⟩ := F.orderly.job _ hc
    exact ⟨⟨F.here, F.unhooked, F.orderly.rephase (Core.job?_pos hj) fun _ _ _ => by simp⟩,
      F.unheld, F.settled⟩
  have begun : ∀ {m m' : Machine} {id : Nat} {i : Instance} {turn : Turn} {s : List Sight}
      {r : Reply}, m.Free id i → i.slot.current = some turn →
      Thread.Goes id (m.setPhase turn.job .running)
        ⟨[.takeTurn id turn.ticket turn.job, .jobDone turn.job], .nothing⟩ s m' ⟨[], r⟩ →
      m.Carries id .turn s m' := fun F hc go =>
    ⟨_, _, _, by simp only [Machine.begin?, F.here, Option.map_some, hc, Thread.ofJob], go⟩
  by_cases hq : f.queue.events = []
  · refine ⟨[], f, he, rfl, ?_⟩
    rintro m id i F rfl
    cases hc : i.slot.current with
    | none => exact none F rfl hc
    | some turn =>
      obtain ⟨m', j, r, go, F', e'⟩ := idles (claimed F hc) hc hq [] .nothing
      exact ⟨m', j, begun F hc go, F', e'⟩
  · by_cases hr : f.running = true
    · obtain ⟨e, q, hp⟩ : ∃ e q, f.queue.pop? = some (e, q) := by
        unfold Queue.pop?
        split
        · next h => exact absurd h hq
        · exact ⟨_, _, rfl⟩
      obtain ⟨s, g, hge, hgp, h⟩ := turns steady e q
      refine ⟨s, g, hge, hgp, ?_⟩
      rintro m id i F rfl
      obtain ⟨turn, hc⟩ := Option.ne_none_iff_exists'.mp (F.orderly.busy
        (Slot.hasWork_iff.mpr ⟨hr, by simpa [Queue.isEmpty, Instance.figure] using hq⟩))
      obtain ⟨m', j, r, go, F', e'⟩ := h _ id i turn [] .nothing (claimed F hc) rfl hc hp
      exact ⟨m', j, begun F hc go, F', e'⟩
    · refine ⟨[], f, he, rfl, ?_⟩
      rintro m id i F rfl
      exact none F rfl (Classical.byContradiction fun hc => hr (F.orderly.running hc))

/-- Any acts have the same account with all free instances of a figure. -/
theorem performs (he : f.event = none) (steady : f.program.Steady) (acts : List Act) :
    ∃ accounts, ∀ m id i, Machine.Free m id i → i.figure = f →
      ∃ m', m.Performs id acts accounts m' := by
  induction acts generalizing f with
  | nil => exact ⟨[], fun m id i _ _ => ⟨m, .nil m⟩⟩
  | cons act acts ih =>
    obtain ⟨s, g, hge, hgp, h⟩ : ∃ s g, g.event = none ∧ g.program = f.program ∧
        ∀ m id i, Machine.Free m id i → i.figure = f →
          ∃ m' j, m.Carries id act s m' ∧ m'.Free id j ∧ j.figure = g := by
      cases act with
      | call o => exact call he o
      | turn => exact turn he steady
    obtain ⟨accounts, h'⟩ := ih hge (hgp ▸ steady)
    refine ⟨⟨s, ⟨g.state, g.running, g.vars, g.queue.events⟩⟩ :: accounts, fun m id i F e => ?_⟩
    obtain ⟨n, j, carried, F', rfl⟩ := h m id i F e
    obtain ⟨m', performed⟩ := h' n id j F' rfl
    exact ⟨m', .cons carried F'.here performed⟩

end Figure

end ScriptHost
