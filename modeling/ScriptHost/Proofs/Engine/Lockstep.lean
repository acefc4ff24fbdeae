import ScriptHost.Proofs.Engine.Seclusion

/-!
# Sections done in step

A section about an item, done on a machine and under other numbers on its twin,
keeps the two in step, leads to the same sections and answers the same
(`InStep.exec`); so does a thread that goes on alone (`InStep.run`).
-/

namespace ScriptHost

open Machine

namespace Done

variable (p : Machine × List Instr) (q : Machine × List Instr × Option Reply) (r : Reply)

/-- A section that leaves the answer as it is. -/
def leading : Done := ⟨p.1, p.2, r⟩

/-- A section that may have an answer of its own. -/
def answering : Done := ⟨q.1, q.2.1, q.2.2.getD r⟩

/-- The section in which an operation begins. -/
def performed (p : Machine × List Instr × Reply) : Done := ⟨p.1, p.2.1, p.2.2⟩

end Done

/-- Two sections have been done in step: the machines are in step, what is next is the same up to
numbers and about the item, and the answer is the same. -/
structure Done.InStep (a : Uuid) (ρ : Renumbering) (base base' m : Machine) (d d' : Done) :
    Prop where
  machine : Machine.InStep a ρ base base' d.machine d'.machine
  next : d'.next = d.next.map (Instr.renumber ρ)
  reply : d'.reply = d.reply
  within : m.Extends d.machine → ∀ x ∈ d.next, x.Within d.machine a

variable {a : Uuid} {ρ : Renumbering} {base base' m m' n n' : Machine} {id : Nat} {i : Instance}
  {r r' : Reply}

namespace Done.InStep

/-- What is next is about what was there before. -/
theorem of {l l' : List Instr} (B : Machine.InStep a ρ base base' n n')
    (hl : l' = l.map (Instr.renumber ρ)) (hr : r' = r) (h : ∀ x ∈ l, x.Within m a) :
    Done.InStep a ρ base base' m ⟨n, l, r⟩ ⟨n', l', r'⟩ :=
  ⟨B, hl, hr, fun E x hx => (h x hx).mono E⟩

/-- Nothing is next. -/
theorem last (B : Machine.InStep a ρ base base' n n') :
    Done.InStep a ρ base base' m ⟨n, [], r⟩ ⟨n', [], r⟩ :=
  .of B rfl rfl (List.forall_mem_nil _)

theorem plain (B : Machine.InStep a ρ base base' n n') (r : Reply) :
    Done.InStep a ρ base base' m (Instr.plain n r) (Instr.plain n' r) :=
  .last B

theorem ite {c : Prop} [Decidable c] {d d' e e' : Done} (h : Done.InStep a ρ base base' m d d')
    (h' : Done.InStep a ρ base base' m e e') :
    Done.InStep a ρ base base' m (if c then d else e) (if c then d' else e') := by
  split
  · exact h
  · exact h'

section Subject

variable (B : Machine.InStep a ρ base base' m m') (h : m.Of a id)

include B h

theorem about {f f' : Instance → Machine}
    (hf : ∀ i, m.get? id = some i → i.item = a →
      Machine.InStep a ρ base base' (f i) (f' (i.renumber ρ))) (r : Reply) :
    Done.InStep a ρ base base' m (Instr.about m r id f) (Instr.about m' r (ρ.id id) f') := by
  obtain ⟨i, hi, ha⟩ := h
  unfold Instr.about
  rw [hi, B.twins.get? hi ha]
  exact .plain (hf i hi ha) r

theorem leads {f f' : Instance → Machine × List Instr}
    (hf : ∀ i, m.get? id = some i → i.item = a → Done.InStep a ρ base base' m (.leading (f i) r)
      (.leading (f' (i.renumber ρ)) r)) :
    Done.InStep a ρ base base' m (Instr.leads m r id f) (Instr.leads m' r (ρ.id id) f') := by
  obtain ⟨i, hi, ha⟩ := h
  unfold Instr.leads
  rw [hi, B.twins.get? hi ha]
  exact hf i hi ha

end Subject

/-! ## Turns -/

section Turns

variable (B : Machine.InStep a ρ base base' m m') (hi : m.get? id = some i) (ha : i.item = a)

include B hi ha

theorem takeTurn {ticket job : Nat} (hs : i.program.Secluded) (hj : m.JobOf a job) (r : Reply) :
    Done.InStep a ρ base base' m
      (.leading (m.takeTurn id i ticket job) r)
      (.leading (m'.takeTurn (ρ.id id) (i.renumber ρ) ticket (ρ.job job)) r) := by
  have mine : m.Of a id := ⟨i, hi, ha⟩
  unfold Machine.takeTurn
  simp only [Instance.owns_renumber, Instance.renumber_slot, Slot.renumber_queue]
  split
  · cases i.slot.queue.pop? with
    | none =>
      exact .last (B.revise mine (fun _ => rfl) (fun _ => rfl) fun _ => .inr rfl)
    | some p =>
      obtain ⟨e, rest⟩ := p
      have taken := B.revise (f := (·.take e rest)) mine (fun _ => rfl) (fun _ => rfl)
        fun _ => .inl rfl
      simp only
      split
      · cases hargs : e.args with
        | nil =>
          simp only [switchState, hargs]
          exact .of (taken.note _ _) rfl rfl (List.forall_mem_singleton.mpr mine)
        | cons target more =>
          simp only [switchState, hargs]
          refine .of (taken.note _ _) rfl rfl (List.forall_mem_append.mpr
            ⟨?_, List.forall_mem_singleton.mpr mine⟩)
          exact List.forall_mem_cons.mpr ⟨mine, List.forall_mem_cons.mpr
            ⟨mine, List.forall_mem_cons.mpr ⟨mine, List.forall_mem_singleton.mpr trivial⟩⟩⟩
      · have tame : m.Tame a id := ⟨i, hi, ha, hs⟩
        exact .of taken rfl rfl (List.forall_mem_cons.mpr
          ⟨⟨tame, hj⟩, List.forall_mem_singleton.mpr mine⟩)
  · exact .last (B.note _ _)

end Turns

section Handlers

variable {v : Invocation} (B : Machine.InStep a ρ base base' m m') (hi : m.get? v.id = some i)
  (ha : i.item = a) (hj : m.JobOf a v.job)

include B hi ha hj

theorem enter (hs : i.program.Secluded) (r : Reply) : Done.InStep a ρ base base' m
    (.leading (m.enter i v) r)
    (.leading (m'.enter (i.renumber ρ) (v.renumber ρ)) r) := by
  have mine : m.Of a v.id := ⟨i, hi, ha⟩
  unfold Machine.enter
  simp only [Instance.renumber_program, Instance.renumber_state, Invocation.renumber_event,
    Instance.renumber_runs]
  cases hh : i.program.handler i.state v.event.name with
  | none =>
    exact .of (B.note _ _) rfl rfl
      (List.forall_mem_singleton.mpr ⟨mine, hj, List.forall_mem_nil _⟩)
  | some p =>
    obtain ⟨key, actions⟩ := p
    refine .of ((B.note _ _).revise (f := (·.countRun key)) mine (fun _ => rfl) (fun _ => rfl)
      fun _ => .inl rfl) rfl rfl ?_
    intro x hx
    obtain rfl := List.mem_singleton.mp hx
    exact ⟨mine, hj, hs _ _ _ _ hh _⟩

theorem act {l : List Action} (hl : ∀ x ∈ l, x.Secluded) (r : Reply) : Done.InStep a ρ base base' m
    (.leading (m.act i v l) r)
    (.leading (m'.act (i.renumber ρ) (v.renumber ρ) l) r) := by
  have mine : m.Of a v.id := ⟨i, hi, ha⟩
  have interrupted : m'.interrupted (v.renumber ρ).job = m.interrupted v.job :=
    B.twins.interrupted hj
  have releases : m'.releases = m.releases := congrArg Setting.releases B.twins.setting
  have leaves : ∀ o : Outcome, o ≠ .selfDelete →
      ∀ x ∈ leave v o, x.Within m a := by
    intro o ho
    exact List.forall_mem_cons.mpr ⟨mine, List.forall_mem_cons.mpr
      ⟨mine, List.forall_mem_singleton.mpr ⟨mine, ho⟩⟩⟩
  cases l with
  | nil => exact .of B rfl rfl (leaves _ (by simp))
  | cons x rest =>
    obtain ⟨hx, hrest⟩ := List.forall_mem_cons.mp hl
    have goesOn : ∀ w : Invocation, w.id = v.id → w.job = v.job →
        ∀ y ∈ [Instr.act w rest], y.Within m a := by
      intro w hid hjob y hy
      obtain rfl := List.mem_singleton.mp hy
      exact ⟨hid ▸ mine, hjob ▸ hj, hrest⟩
    have sets : ∀ name value, Machine.InStep a ρ base base'
        (m.modify v.id fun i => { i with live := i.live.insert name value })
        (m'.modify (ρ.id v.id) fun i => { i with live := i.live.insert name value }) :=
      fun name value => B.revise mine (fun _ => rfl) (fun _ => rfl) fun _ => .inl rfl
    cases x with
    | set name value => exact .of (sets name value) rfl rfl (goesOn v rfl rfl)
    | takeArgument name =>
      simp only [Machine.act, Invocation.renumber_event]
      split
      · exact .of (sets name _) rfl rfl (goesOn v rfl rfl)
      · exact .of B rfl rfl (goesOn v rfl rfl)
    | increment name => exact .of (sets name _) rfl rfl (goesOn v rfl rfl)
    | request q => exact .of B rfl rfl (goesOn _ rfl rfl)
    | perform ops => cases hx with | simple h => cases h
    | showInterrupt => exact .of (B.note _ _) rfl rfl (goesOn v rfl rfl)
    | cancelIfInterrupted =>
      simp only [Machine.act, interrupted]
      split
      · exact .of B rfl rfl (leaves _ (by simp))
      · exact .of B rfl rfl (goesOn v rfl rfl)
    | showContext => exact .of (B.note _ _) rfl rfl (goesOn v rfl rfl)
    | showCapability kind => exact .of (B.note _ _) rfl rfl (goesOn v rfl rfl)
    | park untilInterrupted =>
      simp only [Machine.act, releases]
      exact .of B rfl rfl (List.forall_mem_cons.mpr
        ⟨hj, List.forall_mem_singleton.mpr ⟨mine, hj, hrest⟩⟩)
    | choose next =>
      simp only [Machine.act, interrupted]
      refine .of B rfl rfl ?_
      intro y hy
      obtain rfl := List.mem_singleton.mp hy
      refine ⟨mine, hj, fun z hz => ?_⟩
      rcases List.mem_append.mp hz with hz | hz
      · cases hx with
        | simple h => cases h
        | choose h => exact h _ z hz
      · exact hrest z hz
    | finish how =>
      cases hx with
      | simple h => cases h
      | finish ho => exact .of B rfl rfl (leaves how.caught ho)

end Handlers

theorem conclude {v : Invocation} {o : Outcome} (B : Machine.InStep a ρ base base' m m')
    (h : m.Of a v.id) (ho : o ≠ .selfDelete) (r : Reply) : Done.InStep a ρ base base' m
      (.leading (m.conclude v o) r)
      (.leading (m'.conclude (v.renumber ρ) o) r) := by
  cases o with
  | completed => exact .of B rfl rfl (List.forall_mem_singleton.mpr h)
  | eventAborted => exact .of (B.note _ _) rfl rfl (List.forall_mem_singleton.mpr h)
  | cancelled => exact .of (B.note _ _) rfl rfl (List.forall_mem_singleton.mpr h)
  | selfDelete => exact absurd rfl ho
  | fault f => exact .of B rfl rfl (List.forall_mem_cons.mpr ⟨h, List.forall_mem_singleton.mpr h⟩)

/-- Nobody is called back while a message is delivered. -/
theorem showFault (B : Machine.InStep a ρ base base' m m') (f : Fault) (r : Reply) :
    Done.InStep a ρ base base' m (.leading (m.showFault i f) r)
      (.leading (m'.showFault (i.renumber ρ) f) r) := by
  have noted := (B.note (.count .fault) (.count .fault)).note
    (.log .error "script runtime error") (.log .error "script runtime error")
  have entity : ∀ l, ((m'.count .fault).log .error "script runtime error").entity? l =
      ((m.count .fault).log .error "script runtime error").entity? l := noted.twins.entity?
  have quiet : ∀ {n : Machine}, n.hooks = ([], [], []) → n.messageHooks = [] := fun h =>
    congrArg (fun p => p.2.1) h
  unfold Machine.showFault
  simp only [entity, Instance.localId, Instance.renumber_identity]
  split
  · exact .last (noted.note _ _)
  · have own : ((m.count .fault).log .error "script runtime error").takeMessageHook =
        ((m.count .fault).log .error "script runtime error", []) :=
      takeMessageHook_of_none (quiet noted.twins.quiet)
    have other : ((m'.count .fault).log .error "script runtime error").takeMessageHook =
        ((m'.count .fault).log .error "script runtime error", []) :=
      takeMessageHook_of_none (quiet noted.twins.quiet')
    simp only [own, other, List.nil_append]
    exact .of noted rfl rfl (List.forall_mem_singleton.mpr trivial)

/-! ## Saving and loading -/

section Saves

variable (B : Machine.InStep a ρ base base' m m') (hi : m.get? id = some i) (ha : i.item = a)

include B hi ha

theorem save (s : Saving) (r : Reply) : Done.InStep a ρ base base' m
    (.answering (m.save id i s) r)
    (.answering (m'.save (ρ.id id) (i.renumber ρ) s) r) := by
  have again : ∀ s : Saving, ∀ x ∈ [Instr.save id s], x.Within m a := by
    intro s x hx
    obtain rfl := List.mem_singleton.mp hx
    exact ⟨i, hi, ha⟩
  have exports : m'.exports = m.exports := congrArg Setting.exports B.twins.setting
  have clock : m'.clock = m.clock := congrArg Setting.clock B.twins.setting
  cases s with
  | running => exact .of B rfl rfl (again _)
  | state running => exact .of B rfl rfl (again _)
  | vars running state => exact .of B rfl rfl (again _)
  | plugins running state vars =>
    simp only [Machine.save, exports]
    exact .of B rfl rfl (again _)
  | queue running state vars plugins =>
    simp only [Machine.save, clock]
    exact .of B rfl rfl (again _)
  | write d =>
    subst ha
    have failure := (B.twins.write d.encode).2
    simp only [Machine.save, Instance.item_renumber, failure]
    exact .of (.ite ((B.write _).note _ _) (B.write _)) rfl rfl (again _)
  | verify =>
    subst ha
    have holds : m'.store.holds i.item = m.store.holds i.item := B.twins.store.holds.symm
    simp only [Machine.save, Instance.item_renumber, holds]
    split
    · exact .last (B.note _ _)
    · exact .last ((B.note _ _).note _ _)

omit hi ha in
theorem startFresh (h : m.Of a id) (l : Loading) (path : String) (r : Reply) :
    Done.InStep a ρ base base' m (.leading (m.startFresh id l path) r)
      (.leading (m'.startFresh (ρ.id id) (l.renumber ρ) path) r) := by
  have counted := B.note (.count (.recovery path)) (.count (.recovery path))
  unfold Machine.startFresh
  simp only
  refine .of ?_ ?_ rfl ?_
  · split
    · exact counted.note _ _
    · exact counted.note _ _
    · exact counted
  · rw [List.map_append, Instr.map_freshStart, Instr.map_finishLoad]
    rfl
  · intro x hx
    rcases List.mem_append.mp hx with hx | hx
    · exact Instr.within_freshStart h _ x hx
    · exact Instr.within_finishLoad h _ x hx

theorem recoverSize (l : Loading) (r : Reply) : Done.InStep a ρ base base' m
    (.leading (m.recoverSize id i l) r)
    (.leading (m'.recoverSize (ρ.id id) (i.renumber ρ) (l.renumber ρ)) r) := by
  have mine : m.Of a id := ⟨i, hi, ha⟩
  subst ha
  have size : m'.size (i.renumber ρ).item = m.size i.item := B.twins.size
  unfold Machine.recoverSize
  rw [size]
  cases m.size i.item with
  | error e => exact startFresh B mine l _ r
  | ok found =>
    cases found with
    | none => exact startFresh B mine l _ r
    | some size =>
      simp only [Instance.renumber_limits]
      split
      · exact startFresh B mine l _ r
      · exact .of B rfl rfl (List.forall_mem_singleton.mpr mine)

theorem recoverRead (l : Loading) (r : Reply) : Done.InStep a ρ base base' m
    (.leading (m.recoverRead id i l) r)
    (.leading (m'.recoverRead (ρ.id id) (i.renumber ρ) (l.renumber ρ)) r) := by
  have mine : m.Of a id := ⟨i, hi, ha⟩
  subst ha
  have read : m'.read (i.renumber ρ).item = m.read i.item := B.twins.read
  unfold Machine.recoverRead
  rw [read]
  cases m.read i.item with
  | error e => exact startFresh B mine l _ r
  | ok raw =>
    cases hd : Document.decode raw with
    | error e =>
      simp only [hd]
      exact startFresh B mine l _ r
    | ok d =>
      simp only [hd]
      refine .of (B.note _ _) ?_ rfl ?_
      · rw [List.map_append, Instr.map_restore, Instr.map_finishLoad]
        rfl
      · intro x hx
        rcases List.mem_append.mp hx with hx | hx
        · exact Instr.within_restore mine _ _ x hx
        · exact Instr.within_finishLoad mine _ x hx

end Saves

theorem load {l : Loading} (B : Machine.InStep a ρ base base' m m')
    (ha : l.request.identity.item = a) (r : Reply) : Done.InStep a ρ base base' m
      (.answering (m.load l) r)
      (.answering (m'.load (l.renumber ρ)) r) := by
  have capabilities : ∀ q e, m'.capabilities.instantiate q e = m.capabilities.instantiate q e :=
    fun q e => congrArg (fun s => s.capabilities.instantiate q e) B.twins.setting
  have next : ρ.id m.instances.length = m'.instances.length := B.twins.id_next 0
  unfold Machine.load
  simp only [B.twins.entity?, capabilities, Loading.renumber_request, Loading.renumber_program,
    Loading.renumber_limits]
  split
  · exact .last (B.note _ _)
  · next e he =>
    have made := B.append (i := Instance.create l.request l.program l.limits
      (m.capabilities.instantiate l.request.identity e)) ha rfl
    refine ⟨made, ?_, rfl, fun _ x hx => ?_⟩
    · rw [← next]
      rfl
    · obtain rfl := List.mem_singleton.mp hx
      exact ⟨_, (get?_append _).trans (if_pos rfl), ha⟩

/-! ## Operations -/

theorem onEngine {o : Op} (B : Machine.InStep a ρ base base' m m') (ho : o.item? = some a) :
    Done.InStep a ρ base base' m (.performed (m.onEngine o))
      (.performed (m'.onEngine o)) := by
  have timeout := B.twins.stopTimeout
  have place : ρ.place m.named.length = m'.named.length := B.twins.place_next 0
  cases o with
  | load name q program direct =>
    obtain rfl := Option.some.inj ho
    cases direct with
    | some limits =>
      simp only [Machine.onEngine, ← place]
      exact .of B rfl rfl (List.forall_mem_singleton.mpr rfl)
    | none =>
      have limits : m'.limits = m.limits := congrArg Setting.limits B.twins.setting
      simp only [Machine.onEngine, loadReplacing, B.twins.registered, limits, timeout, ← place]
      cases hr : m.registered? q.identity.item with
      | none => exact .of B rfl rfl (List.forall_mem_singleton.mpr rfl)
      | some old =>
        exact .of (B.unregister.note _ _) rfl rfl (List.forall_mem_cons.mpr
          ⟨B.twins.listed hr, List.forall_mem_singleton.mpr rfl⟩)
  | postItem item e =>
    obtain rfl := Option.some.inj ho
    simp only [Machine.onEngine, B.twins.registered]
    cases hr : m.registered? item with
    | none => exact .last B
    | some id => exact .of B rfl rfl (List.forall_mem_singleton.mpr (B.twins.listed hr))
  | remove item =>
    obtain rfl := Option.some.inj ho
    simp only [Machine.onEngine, removeScript, B.twins.registered, timeout]
    cases hr : m.registered? item with
    | none => exact .of B rfl rfl (List.forall_mem_singleton.mpr trivial)
    | some id =>
      have mine : m.Of item id := B.twins.listed hr
      refine .of B.unregister rfl rfl (List.forall_mem_cons.mpr ⟨mine, ?_⟩)
      exact List.forall_mem_cons.mpr ⟨mine, List.forall_mem_cons.mpr
        ⟨mine, List.forall_mem_cons.mpr ⟨trivial, List.forall_mem_singleton.mpr trivial⟩⟩⟩
  | _ => cases ho

theorem onInstance (B : Machine.InStep a ρ base base' m m') (hi : m.get? id = some i)
    (ha : i.item = a) (o : Op) : Done.InStep a ρ base base' m
      (.performed (m.onInstance id i o))
      (.performed (m'.onInstance (ρ.id id) (i.renumber ρ) o)) := by
  have mine : m.Of a id := ⟨i, hi, ha⟩
  cases o with
  | setStartParam target value =>
    exact .last (B.revise (f := fun i => { i with startParam := value }) mine (fun _ => rfl)
      (fun _ => rfl) fun _ => .inl rfl)
  | showInfo target => exact .of B rfl (by simp [Machine.onInstance]) (List.forall_mem_nil _)
  | _ => exact .of B rfl rfl (Instr.within_onInstance mine i _)

end Done.InStep

/-! ## Every section, and threads of them -/

theorem Machine.perform_of_item {o : Op} (h : o.item? = some a) (m : Machine) :
    m.perform o = m.onEngine o := by
  cases o <;> first | rfl | cases h

/-- A stop waits for the turn that is outstanding. -/
theorem Machine.current_of_beginStop {turn : Turn} (h : (m.beginStop id i).2 = some turn) :
    i.slot.current = some turn := by
  unfold beginStop at h
  split at h
  · cases h
  · split at h
    · cases h
    · next hc =>
      simp only at h
      split at h
      · cases h
      · rw [hc]
        exact h

namespace Machine.InStep

theorem exec {x : Instr} (B : Machine.InStep a ρ base base' m m') (h : x.Within m a) (r : Reply) :
    Done.InStep a ρ base base' m (x.exec m r) ((x.renumber ρ).exec m' r) := by
  cases x with
  | op o =>
    simp only [Instr.renumber, Instr.exec, perform_of_item h]
    exact .onEngine B h
  | answer answered => exact .plain B answered
  | loaded id name place =>
    exact .plain (B.next B.twins.enlist rfl (fun _ => .of_eq rfl rfl rfl rfl)
      fun _ => .of_eq rfl rfl rfl rfl) .loaded
  | log | count => exact .plain (B.note _ _) r
  | start id => exact .about B h (fun i hi ha => B.start hi ha) r
  | stop id ms =>
    refine .leads B h fun i hi ha => ?_
    have stopped := B.beginStop hi ha
    have outstanding : ∀ turn, (m.beginStop id i).2 = some turn → m.JobOf a turn.job :=
      fun turn ht => B.twins.booked hi ha (current_of_beginStop ht)
    generalize m.beginStop id i = p, m'.beginStop (ρ.id id) (i.renumber ρ) = q
      at stopped outstanding
    obtain ⟨n, turn⟩ := p
    obtain ⟨n', turn'⟩ := q
    obtain ⟨stopped, rfl⟩ := stopped
    cases turn with
    | none => exact .last stopped
    | some turn =>
      exact .of stopped rfl rfl (List.forall_mem_singleton.mpr ⟨h, outstanding turn rfl⟩)
  | stopWait id ms turn =>
    have none : ∀ {n : Machine}, n.hooks = ([], [], []) → n.waitHooks = [] := fun h =>
      congrArg Prod.fst h
    have own : (m.note (.wait turn.job ms)).waitHooks = [] := none B.twins.quiet
    have other : (m'.note (.wait (turn.renumber ρ).job ms)).waitHooks = [] := none B.twins.quiet'
    simp only [Instr.renumber, Instr.exec, own, other]
    exact .of (B.note _ _) rfl rfl (List.forall_mem_singleton.mpr h)
  | stopWaited id ms turn forced =>
    have finished : m'.finished (turn.renumber ρ).job = m.finished turn.job :=
      B.twins.finished h.2
    simp only [Instr.renumber, Instr.exec, finished]
    exact .ite (.plain B r) (.of B rfl rfl (List.forall_mem_singleton.mpr h))
  | stopCheck id ms turn =>
    refine .leads B h.1 fun i hi ha => ?_
    simp only [Instance.owns_renumber, Turn.renumber_ticket]
    split
    · exact .of B rfl rfl (List.forall_mem_cons.mpr ⟨h, List.forall_mem_singleton.mpr h⟩)
    · exact .last B
  | stopAbort id turn => exact .about B h.1 (fun i _ _ => B.forceAbort h.2) r
  | stopEnd id turn => exact .about B h.1 (fun i hi ha => B.endStop hi ha turn) r
  | post id e =>
    obtain ⟨i, hi, ha⟩ := h
    obtain ⟨posted, posting⟩ := B.post hi ha e
    simp only [Instr.renumber, Instr.exec, hi, B.twins.get? hi ha, posting]
    exact .plain posted _
  | clearQueue id =>
    exact .plain (B.revise (f := fun i => i.setQueue i.slot.queue.clear) h (fun _ => rfl)
      (fun _ => rfl) fun _ => .inl rfl) r
  | edit id e =>
    refine .leads B h fun i hi ha => ?_
    change Done.InStep a ρ base base' _ _
      ⟨_, if i.keepsEdits = true then [] else [.letGo (ρ.id id) .edit], r⟩
    split
    · exact .last (B.edit hi ha e)
    · exact .of (B.edit hi ha e) rfl rfl (List.forall_mem_singleton.mpr h)
  | replaceState id state =>
    exact .plain (B.revise (f := fun i => { i with state := state }) h (fun _ => rfl)
      (fun _ => rfl) fun _ => .inl rfl) r
  | clearPermissions id => exact .about B h (fun i _ _ => B.note _ _) r
  | removePlugins id => exact .about B h (fun i _ _ => B.note _ _) r
  | removeState id =>
    refine .about B h (fun i _ ha => ?_) r
    subst ha
    have failure := B.twins.remove.2
    change Machine.InStep _ ρ base base' _
      (if (m'.remove i.item).2.isSome = true then _ else _)
    rw [failure]
    exact .ite (B.remove.note _ _) B.remove
  | publishMask id =>
    refine .leads B h fun i hi ha => ?_
    change Done.InStep a ρ base base' _ _
      ⟨_, if i.held = true then [] else [.letGo (ρ.id id) .mask], r⟩
    split
    · exact .last (B.publishMask hi ha)
    · exact .of (B.publishMask hi ha) rfl rfl (List.forall_mem_singleton.mpr h)
  | letGo id e =>
    exact .plain (B.revise (f := (·.letGo e)) h (fun _ => rfl) (fun _ => rfl) fun _ => .inl rfl) r
  | reset id =>
    refine .leads B h fun i hi ha => .of (B.note _ _) ?_ rfl (Instr.within_resetAll h _)
    exact (Instr.map_resetAll i.slot.running).symm
  | stateEntryUnlessCurrent id =>
    refine .leads B h fun i hi ha => ?_
    simp only [Instance.renumber_currentEvent]
    split
    · exact .last B
    · exact .of B rfl rfl (List.forall_mem_singleton.mpr h)
  | save id s =>
    obtain ⟨i, hi, ha⟩ := h
    simp only [Instr.renumber, Instr.exec, hi, B.twins.get? hi ha]
    exact .save B hi ha s r
  | load l => exact .load B h r
  | recoverSize id l => exact .leads B h fun i hi ha => .recoverSize B hi ha l r
  | recoverRead id l => exact .leads B h fun i hi ha => .recoverRead B hi ha l r
  | importData id data => exact .about B h (fun i _ _ => B.note _ _) r
  | refill id events =>
    exact .plain (B.revise (f := fun i => i.setQueue (i.slot.queue.pushAll events)) h
      (fun _ => rfl) (fun _ => rfl) fun _ => .inl rfl) r
  | register id =>
    refine .about B h (fun i hi ha => ?_) r
    subst ha
    exact (B.register ⟨i, hi, rfl⟩).note _ _
  | takeTurn id ticket job =>
    obtain ⟨⟨j, hj, hja, hs⟩, hjob⟩ := h
    refine .leads B ⟨j, hj, hja⟩ fun i hi ha => ?_
    obtain rfl := Option.some.inj (hj.symm.trans hi)
    exact .takeTurn B hi ha hs hjob r
  | readDetected v =>
    exact .leads B h.1.of fun i _ _ => .of B rfl rfl (List.forall_mem_singleton.mpr h)
  | lockScript v =>
    have mine := h.1.of
    exact .of (B.revise (f := fun i => { i with holder := some .handler }) mine (fun _ => rfl)
      (fun _ => rfl) fun _ => .inl rfl) rfl rfl
      (List.forall_mem_cons.mpr ⟨mine, List.forall_mem_singleton.mpr h⟩)
  | settle id => exact .plain (B.settle h) r
  | enter v =>
    obtain ⟨⟨j, hj, hja, hs⟩, hjob⟩ := h
    refine .leads B ⟨j, hj, hja⟩ fun i hi ha => ?_
    obtain rfl := Option.some.inj (hj.symm.trans hi)
    exact .enter B hi ha hjob hs r
  | act v actions => exact .leads B h.1 fun i hi ha => .act B hi ha h.2.1 h.2.2 r
  | parked job untilInterrupted releases => exact .plain B r
  | unlock id =>
    exact .plain (B.revise (f := fun i => { i with holder := none }) h (fun _ => rfl)
      (fun _ => rfl) fun _ => .inl rfl) r
  | applyRequests v o =>
    refine .leads B h.1 fun i _ _ => ?_
    simp only [Instance.owns_renumber, Invocation.renumber_ticket, Invocation.renumber_requests,
      Invocation.renumber_id]
    split
    · refine .of B ?_ rfl ?_
      · simp only [List.map_append, List.map_flatMap, Instr.map_request]
        rfl
      · intro x hx
        rcases List.mem_append.mp hx with hx | hx
        · obtain ⟨q, -, hx⟩ := List.mem_flatMap.mp hx
          exact Instr.within_request h.1 q x hx
        · obtain rfl := List.mem_singleton.mp hx
          exact h
    · exact .of (.ite B (B.note _ _)) rfl rfl (List.forall_mem_singleton.mpr h)
  | conclude v o => exact .conclude B h.1 h.2 r
  | showFault v f => exact .leads B h fun i _ _ => .showFault B f r
  | delivered text e =>
    simp only [Instr.renumber, Instr.exec, B.twins.has]
    exact .plain (.ite (B.note _ _) (B.note _ _)) r
  | record v o => exact .about B h (fun i _ _ => ((B.note _ _).note _ _).note _ _) r
  | finishTurn id ticket => exact .about B h (fun i hi ha => B.finishTurn hi ha ticket) r
  | jobDone job => exact .plain (B.setPhase h .done) r
  | noteBegin | noteReply | saveEach | shutdownEach | saved | postEach | posted | run | selfDelete
  | deleted => exact h.elim

theorem blocked {x : Instr} (B : Machine.InStep a ρ base base' m m') (h : x.Within m a) :
    (x.renumber ρ).blocked m' = x.blocked m := by
  cases x with
  | lockScript v =>
    obtain ⟨i, hi, ha, -⟩ := h.1
    simp only [Instr.renumber, Instr.blocked, Invocation.renumber_id, hi, B.twins.get? hi ha]
    rfl
  | parked job untilInterrupted releases =>
    have released : m'.releases = m.releases := congrArg Setting.releases B.twins.setting
    simp only [Instr.renumber, Instr.blocked, released, B.twins.interrupted h]
  | _ => rfl

end Machine.InStep

def Thread.renumber (ρ : Renumbering) (t : Thread) : Thread :=
  ⟨t.agenda.map (Instr.renumber ρ), t.reply⟩

/-- Two threads that go on alone, each on its machine, stay in step. -/
theorem Machine.InStep.run {t : Thread} (B : Machine.InStep a ρ base base' m m')
    (h : ∀ x ∈ t.agenda, x.Within m a) (fuel : Nat) :
    Machine.InStep a ρ base base' (t.run fuel m).1 ((t.renumber ρ).run fuel m').1 ∧
      ((t.renumber ρ).run fuel m').2 = (t.run fuel m).2.renumber ρ := by
  induction fuel generalizing m m' t with
  | zero => exact ⟨B, rfl⟩
  | succ fuel ih =>
    obtain ⟨agenda, reply⟩ := t
    cases agenda with
    | nil => exact ⟨B, rfl⟩
    | cons x rest =>
      obtain ⟨hx, hrest⟩ := List.forall_mem_cons.mp h
      have blocked := B.blocked hx
      cases hb : x.blocked m with
      | true =>
        rw [hb] at blocked
        have own : Thread.step? m ⟨x :: rest, reply⟩ = none := by simp [Thread.step?, hb]
        have other : Thread.step? m' (Thread.renumber ρ ⟨x :: rest, reply⟩) = none := by
          simp [Thread.step?, Thread.renumber, blocked]
        rw [Thread.run_of_none own, Thread.run_of_none other]
        exact ⟨B, rfl⟩
      | false =>
        rw [hb] at blocked
        have done := B.exec hx reply
        have E := extends_exec m reply x
        have own : Thread.step? m ⟨x :: rest, reply⟩ = some ((x.exec m reply).machine,
            ⟨(x.exec m reply).next ++ rest, (x.exec m reply).reply⟩) := by
          simp [Thread.step?, hb]
        have other : Thread.step? m' (Thread.renumber ρ ⟨x :: rest, reply⟩) =
            some (((x.renumber ρ).exec m' reply).machine, Thread.renumber ρ
              ⟨(x.exec m reply).next ++ rest, (x.exec m reply).reply⟩) := by
          simp [Thread.step?, Thread.renumber, blocked, done.next, done.reply]
        rw [Thread.run_of_some own, Thread.run_of_some other]
        refine ih done.machine fun y hy => ?_
        rcases List.mem_append.mp hy with hy | hy
        · exact done.within E y hy
        · exact (hrest y hy).mono E

end ScriptHost
