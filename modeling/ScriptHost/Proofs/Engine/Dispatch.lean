import ScriptHost.Proofs.Engine.Coherent

/-!
# The discipline of dispatch

The pool is asked for a turn of an instance only when the instance runs, has
events queued, and no other turn is outstanding; so no queued event is ever
stranded, and no job but the outstanding one has any effect. Both are read off
`Coherent`: `Core.Booked.busy` is the first, uniqueness of tickets the second.
-/

namespace ScriptHost

namespace Slot

variable {s : Slot}

theorem asks_start (h : s.start.asks = true) : s.start.slot.hasWork = true ∧ s.current = none := by
  unfold start at h ⊢
  split at h
  · cases h
  · next hr =>
    rw [if_neg hr]
    simpa [hasWork] using h

theorem push_of_accepted {q : Queue} {e : Event} (h : (q.push e).2.isAccepted = true) :
    (q.push e).1.events = q.events ++ [e] := by
  unfold Queue.push at h ⊢
  split
  · next hc => simp [hc, Posting.isAccepted] at h
  · split
    · next hc ht => simp [hc, ht, Posting.isAccepted] at h
    · rfl

theorem asks_post {e : Event} (h : (s.post e).asks = true) :
    (s.post e).slot.hasWork = true ∧ s.current = none := by
  unfold post at h ⊢
  split at h
  · next hr =>
    rw [if_pos hr]
    simp only [Bool.and_eq_true, Option.isNone_iff_eq_none] at h
    exact ⟨by simp [hasWork, hr, Queue.isEmpty, push_of_accepted h.1], h.2⟩
  · cases h

theorem asks_giveUp {ticket : Nat} (h : (s.giveUp ticket).asks = true) :
    (s.giveUp ticket).slot.hasWork = true ∧ s.owns ticket = true := by
  unfold giveUp at h ⊢
  split at h
  · next ho => rw [if_pos ho]; exact ⟨h, ho⟩
  · cases h

theorem asks_handOn {ticket : Nat} (h : (s.handOn ticket).asks = true) :
    (s.handOn ticket).slot.hasWork = true ∧ s.owns ticket = true := by
  unfold handOn at h ⊢
  split at h
  · next ho =>
    split at h
    · next hw => rw [if_pos ho, if_pos hw]; exact ⟨hw, ho⟩
    · cases h
  · cases h

end Slot

/-- The section finishes a turn of the instance with this ticket, or gives it up after a stop. -/
def Instr.Ends (id ticket : Nat) (a : Instr) : Prop :=
  a = .finishTurn id ticket ∨ ∃ turn, turn.ticket = ticket ∧ a = .stopEnd id turn

/-- A job that was not there before has been asked for by a section about its instance. -/
theorem Effect.asks {m : Machine} {a : Instr} {c : Core} {next later : List Instr} {n : Nat}
    {j : Job} (e : Effect m a c next) (F : a.Fits m.core later) (hn : m.core.job? n = none) (hj : c.job? n = some j) :
    ∃ s r, m.core.slots[j.owner]? = some s ∧ c = m.core.revise j.owner r ∧ r.asks = true ∧
      n = m.core.jobs.length + 1 ∧ j = ⟨j.owner, r.slot.lastTicket + 1, .queued, false⟩ ∧
      r.slot.hasWork = true ∧
      (s.current = none ∨ ∃ ticket, s.owns ticket = true ∧ a.Ends j.owner ticket) := by
  have revised : ∀ {id : Nat} {s : Slot} {r : Revision}, m.core.slots[id]? = some s →
      c = m.core.revise id r → (r.asks = true → r.slot.hasWork = true ∧
        (s.current = none ∨ ∃ ticket, s.owns ticket = true ∧ a.Ends id ticket)) →
      ∃ s r, m.core.slots[j.owner]? = some s ∧ c = m.core.revise j.owner r ∧ r.asks = true ∧
        n = m.core.jobs.length + 1 ∧ j = ⟨j.owner, r.slot.lastTicket + 1, .queued, false⟩ ∧
        r.slot.hasWork = true ∧
        (s.current = none ∨ ∃ ticket, s.owns ticket = true ∧ a.Ends j.owner ticket) := by
    intro id s r hs hc h
    rw [hc, Core.job?_revise] at hj
    split at hj
    · next ha =>
      cases hj
      exact ⟨s, r, hs, hc, ha.1, ha.2, rfl, h ha.1⟩
    · rw [hn] at hj; cases hj
  have same : c.job? n = m.core.job? n → False := fun h => by
    rw [h, hn] at hj; cases hj
  have quiet : ∀ {p : Prop}, (false = true → p) := fun h => absurd h (by simp)
  cases e with
  | start hs => exact revised hs rfl fun h => (Slot.asks_start h).imp_right .inl
  | post hs => exact revised hs rfl fun h => (Slot.asks_post h).imp_right .inl
  | giveUp hs =>
    exact revised hs rfl fun h => (Slot.asks_giveUp h).imp_right fun ho =>
      .inr ⟨_, ho, .inr ⟨_, rfl, rfl⟩⟩
  | handOn hs =>
    exact revised hs rfl fun h => (Slot.asks_handOn h).imp_right fun ho =>
      .inr ⟨_, ho, .inl rfl⟩
  | clear hs => exact revised hs rfl quiet
  | refill hs => exact revised hs rfl quiet
  | halt hs => exact revised hs rfl quiet
  | await hs => exact revised hs rfl quiet
  | idle hs => exact revised hs rfl quiet
  | takeSwitch hs => exact revised hs rfl quiet
  | take hs => exact revised hs rfl quiet
  | cancel hs _ _ hcan =>
    obtain ⟨i, hi, -⟩ := Machine.queued_of_canCancel hcan
    rw [Core.rephase_revise, Core.job?_rephase (Core.job?_pos hi), Core.job?_revise] at hj
    simp [hn] at hj
  | takeBack _ hi =>
    rw [Core.job?_rephase (Core.job?_pos hi), hn] at hj; cases hj
  | run hi =>
    rw [Core.job?_rephase (Core.job?_pos hi), hn] at hj; cases hj
  | trip => rw [Core.job?_trip, hn] at hj; cases hj
  | done =>
    obtain ⟨i, hi, -⟩ := F
    rw [Core.job?_rephase (Core.job?_pos hi), hn] at hj; cases hj
  | _ => exact (same rfl).elim

/-! ## Stale jobs -/

/-- The job is this turn of this instance, and the turn is not the outstanding one. -/
def Core.Stale (c : Core) (n id ticket : Nat) : Prop :=
  c.IsTurn n id ticket ∧ ∃ s, c.slots[id]? = some s ∧ s.owns ticket = false

/-- Nothing makes a turn the outstanding one again: new turns have new tickets. -/
theorem Core.Stale.grows {c c' : Core} {W : Nat → Turn → Prop} {a : Instr} {n id ticket : Nat}
    (h : c.Stale n id ticket) (B : c.Booked W) (G : c.Grows a c') : c'.Stale n id ticket := by
  obtain ⟨⟨j, hj, rfl, rfl⟩, s, hs, ho⟩ := h
  obtain ⟨s', hs', -, hturn⟩ := G.turns j.owner s hs
  refine ⟨G.turn n _ _ ⟨j, hj, rfl, rfl⟩, s', hs', Bool.eq_false_iff.mpr fun ho' => ?_⟩
  obtain ⟨turn, hc, ht⟩ := Slot.owns_iff.mp ho'
  rcases hturn turn hc with hc | hlt
  · have : s.owns j.ticket = true := Slot.owns_iff.mpr ⟨turn, hc, ht⟩
    simp [ho] at this
  · obtain ⟨s₀, hs₀, hle⟩ := B.owners n j hj
    obtain rfl : s₀ = s := by simpa [hs] using hs₀.symm
    omega

namespace System

variable {S T : System} {n id ticket : Nat}

theorem Coherent.stale_step {l : List Section} (C : S.Coherent) (s : S.Step l T)
    (h : S.machine.core.Stale n id ticket) : T.machine.core.Stale n id ticket := by
  revert C h
  refine s.cases_on (P := fun S _ T => S.Coherent → S.machine.core.Stale n id ticket →
    T.machine.core.Stale n id ticket) ?_ ?_ ?_ ?_
  · intro m ts o _ h
    exact h
  · intro m ts k j hj hq C h
    exact h.grows C.booked (.claim (a := .noteReply) hj hq)
  · intro m ts b _ _ h
    exact h
  · intro S T a rest reply others M C h
    exact h.grows C.booked (M.grows C)

theorem Coherent.run {h : List Section} (C : S.Coherent) (r : Run S h T) : T.Coherent := by
  induction r with
  | refl => exact C
  | snoc _ s ih => exact ih.step s

theorem Coherent.stale_run {h : List Section} (C : S.Coherent) (r : Run S h T)
    (hs : S.machine.core.Stale n id ticket) : T.machine.core.Stale n id ticket := by
  induction r with
  | refl => exact hs
  | snoc r s ih => exact (C.run r).stale_step s ih

end System

namespace Machine

/-- The job is that of the outstanding turn of its instance. -/
def Recorded (m : Machine) (n : Nat) : Prop :=
  ∃ j i, m.job? n = some j ∧ m.get? j.owner = some i ∧ i.slot.current = some ⟨j.ticket, n⟩

/-- The job, run now, would take an event off the queue of its instance. -/
def Takes (m : Machine) (n : Nat) : Prop :=
  ∃ j i i', m.job? n = some j ∧ m.get? j.owner = some i ∧
    ((Instr.takeTurn j.owner j.ticket n).exec m .nothing).machine.get? j.owner = some i' ∧
    i'.slot.queue.events ≠ i.slot.queue.events

variable {m : Machine} {n id ticket : Nat} {j : Job}

theorem exec_takeTurn_of_stale (h : m.core.Stale n id ticket) (r : Reply) :
    (Instr.takeTurn id ticket n).exec m r = ⟨m.log .debug "stale turn skipped", [], r⟩ := by
  obtain ⟨-, s, hs, ho⟩ := h
  obtain ⟨i, hi, rfl⟩ := exists_get? hs
  simp [Instr.exec, Instr.leads, hi, takeTurn, Instance.owns, ho]

theorem exec_finishTurn_of_stale (h : m.core.Stale n id ticket) (r : Reply) :
    (Instr.finishTurn id ticket).exec m r =
      ⟨m.log .debug "abandoned turn finished", [], r⟩ := by
  obtain ⟨-, s, hs, ho⟩ := h
  obtain ⟨i, hi, rfl⟩ := exists_get? hs
  simp [Instr.exec, Instr.about, Instr.plain, hi, finishTurn, Instance.owns, ho]

theorem stale_iff {W : Nat → Turn → Prop} (B : m.core.Booked W) (hj : m.job? n = some j) :
    m.core.Stale n j.owner j.ticket ↔ ¬ m.Recorded n := by
  constructor
  · rintro ⟨-, s, hs, ho⟩ ⟨i, k, hi, hk, hc⟩
    obtain rfl : j = i := by simpa [hj] using hi
    obtain rfl : k.slot = s := by simpa [slots_getElem?, hk] using hs
    rw [Slot.owns_iff.mpr ⟨_, hc, rfl⟩] at ho
    cases ho
  · intro h
    obtain ⟨s, hs, -⟩ := B.owners n j hj
    refine ⟨⟨j, hj, rfl, rfl⟩, s, hs, Bool.eq_false_iff.mpr fun ho => h ?_⟩
    obtain ⟨turn, hc, ht⟩ := Slot.owns_iff.mp ho
    obtain ⟨j', hj', ho', ht', -⟩ := B.outstanding j.owner s turn hs hc
    have hn : turn.job = n := B.job_unique hj' hj ho' (ht'.trans ht)
    obtain ⟨i, hi, rfl⟩ := exists_get? hs
    exact ⟨j, i, hj, hi, by rw [hc, ← ht, ← hn]⟩

theorem Takes.recorded {W : Nat → Turn → Prop} (B : m.core.Booked W) (h : m.Takes n) :
    m.Recorded n := by
  obtain ⟨j, i, i', hj, hi, hi', hne⟩ := h
  refine Classical.byContradiction fun hr => hne ?_
  rw [exec_takeTurn_of_stale ((stale_iff B hj).mpr hr)] at hi'
  have : i' = i := by simpa using hi'.symm.trans hi
  rw [this]

end Machine

/-! ## Main results -/

namespace System

variable {S T : System} {id : Nat} {i : Instance}

/-- Whenever an instance runs and has events queued, its outstanding turn is recorded, and the
turn's job waits in the pool, or is with a thread that will finish the turn and then the job. -/
theorem no_stranded_event (R : Reachable S) (hi : S.machine.get? id = some i)
    (hr : i.slot.running = true) (hq : i.slot.queue.events ≠ []) :
    ∃ turn j, i.slot.current = some turn ∧ S.machine.job? turn.job = some j ∧ j.owner = id ∧
      j.ticket = turn.ticket ∧
      (j.phase = .queued ∨ j.phase = .running ∧ ∃ t ∈ S.threads,
        (.takeTurn id turn.ticket turn.job ∈ t.agenda ∨ .finishTurn id turn.ticket ∈ t.agenda) ∧
        .jobDone turn.job ∈ t.agenda) := by
  have C := R.coherent
  have hs := Machine.slot_of_get? hi
  have work : i.slot.hasWork = true := by simpa [Slot.hasWork, hr, Queue.isEmpty] using hq
  obtain ⟨turn, hc⟩ := Option.ne_none_iff_exists'.mp (C.booked.busy id _ hs work)
  obtain ⟨j, hj, ho, ht, hp⟩ := C.booked.outstanding id _ turn hs hc
  refine ⟨turn, j, hc, hj, ho, ht, hp.imp_right fun h => ⟨h.1, ?_⟩⟩
  rcases h.2 with hat | hat
  · obtain ⟨t, hmem, hta⟩ := mem_pending.mp hat
    obtain ⟨later, hlater, -, -, hd⟩ := (C.agendas t hmem).of_mem hta
    exact ⟨t, hmem, .inl hta, hlater _ hd⟩
  · obtain ⟨t, hmem, hta⟩ := mem_pending.mp hat
    obtain ⟨later, hlater, n, ⟨j', hj', ho', ht'⟩, hd⟩ := (C.agendas t hmem).of_mem hta
    obtain rfl := C.booked.job_unique hj' hj (ho'.trans ho.symm) (ht'.trans ht.symm)
    exact ⟨t, hmem, .inr hta, hlater _ hd⟩

/-- A host whose pool gives no job back, with an instance that was stopped in vain, had its turn
given up, and was started again. -/
def restarted : System :=
  (System.visits 40 ⟨.bare true, []⟩ [.loadIdle "a" 1, .stop "a" 5, .start "a"]).2

theorem restarted_reachable : Reachable restarted := ⟨_, Life.visits true 40 _⟩

theorem no_stranded_event_restarted :
    ∃ i, restarted.machine.get? 0 = some i ∧ i.slot.running = true ∧ i.slot.queue.events ≠ [] ∧
      ∃ turn j, i.slot.current = some turn ∧ restarted.machine.job? turn.job = some j ∧
        j.owner = 0 ∧ j.ticket = turn.ticket ∧
        (j.phase = .queued ∨ j.phase = .running ∧ ∃ t ∈ restarted.threads,
          (.takeTurn 0 turn.ticket turn.job ∈ t.agenda ∨
            .finishTurn 0 turn.ticket ∈ t.agenda) ∧
          .jobDone turn.job ∈ t.agenda) :=
  ⟨_, rfl, rfl, by decide, no_stranded_event restarted_reachable rfl rfl (by decide)⟩

/-- What must hold for a section `a` to ask the pool for job `n` of an instance: the instance then
runs and has events queued, no turn but one that `a` itself ends was outstanding, and all earlier
tickets of the instance are smaller. -/
structure Asks (S : System) (a : Instr) (T : System) (n : Nat) (j : Job) : Prop where
  before : ∃ i, S.machine.get? j.owner = some i ∧ (i.slot.current = none ∨
    ∃ turn, i.slot.current = some turn ∧ a.Ends j.owner turn.ticket)
  after : ∃ i, T.machine.get? j.owner = some i ∧ i.slot.running = true ∧
    i.slot.queue.events ≠ [] ∧ i.slot.current = some ⟨j.ticket, n⟩
  ticket : ∀ k j', S.machine.job? k = some j' → j'.owner = j.owner → j'.ticket < j.ticket

theorem Moves.asks {a : Instr} {rest : List Instr} {reply : Reply} {others : List Thread}
    {n : Nat} {j : Job} (M : Moves S a rest reply others T) (C : S.Coherent)
    (hn : S.machine.job? n = none) (hj : T.machine.job? n = some j) : S.Asks a T n j := by
  obtain ⟨s, r, hs, hc, ha, hnum, hjob, hwork, hold⟩ := M.effect.asks (M.fits C) hn hj
  refine ⟨?_, ?_, fun k j' hj' ho => ?_⟩
  · obtain ⟨i, hi, rfl⟩ := Machine.exists_get? hs
    refine ⟨i, hi, hold.imp_right ?_⟩
    rintro ⟨ticket, ho, he⟩
    obtain ⟨turn, hcur, rfl⟩ := Slot.owns_iff.mp ho
    exact ⟨turn, hcur, he⟩
  · have hs' := (Core.slots_revise (k := j.owner) (r := r) hs).trans (if_pos rfl)
    rw [← hc, if_pos ha] at hs'
    obtain ⟨i, hi, hi'⟩ := Machine.exists_get? hs'
    obtain ⟨hrun, hq⟩ := Slot.hasWork_iff.mp hwork
    refine ⟨i, hi, by rw [hi']; exact hrun, ?_, ?_⟩
    · rw [hi']
      simpa [Slot.ask, Queue.isEmpty] using hq
    · rw [hi', hjob, hnum]; rfl
  · have hj'' : T.machine.core.job? k = some j' := by
      rw [hc]; exact Core.job?_revise_of_some hj'
    have hlt : k < n := by
      have := Core.job?_le (c := S.machine.core) hj'
      omega
    exact (M.coherent C).booked.tickets k n j' j hlt hj'' hj ho

/-- The discipline of dispatch. A step that makes a new job asks for it as `Asks` says. A job that
is not that of the outstanding turn never becomes it, and whenever it is run, or finished, then
nothing happens but a note. So at most one of an instance's jobs can take an event. -/
theorem dispatch_discipline (R : Reachable S) :
    (∀ l T n j, S.Step l T → S.machine.job? n = none → T.machine.job? n = some j →
      ∃ a, l = [⟨S.machine, a⟩] ∧ S.Asks a T n j) ∧
    (∀ n j, S.machine.job? n = some j → ¬ S.machine.Recorded n → ∀ h T, Run S h T →
      ¬ T.machine.Recorded n ∧ ∀ rest reply,
        Thread.step? T.machine ⟨.takeTurn j.owner j.ticket n :: rest, reply⟩ =
          some (T.machine.log .debug "stale turn skipped", ⟨rest, reply⟩) ∧
        Thread.step? T.machine ⟨.finishTurn j.owner j.ticket :: rest, reply⟩ =
          some (T.machine.log .debug "abandoned turn finished", ⟨rest, reply⟩)) ∧
    (∀ n n' j j', S.machine.job? n = some j → S.machine.job? n' = some j' →
      j.owner = j'.owner → S.machine.Takes n → S.machine.Takes n' → n = n') := by
  have C := R.coherent
  refine ⟨fun l T n j s hn hj => ?_, fun n j hj hno h T r => ?_, ?_⟩
  · revert C hn hj
    refine s.cases_on (P := fun S l T => S.Coherent → S.machine.job? n = none →
      T.machine.job? n = some j → ∃ a, l = [⟨S.machine, a⟩] ∧ S.Asks a T n j) ?_ ?_ ?_ ?_
    · intro m ts o _ hn hj
      cases hn.symm.trans hj
    · intro m ts k i hi _ _ hn hj
      have := Core.job?_rephase (c := m.core) (k := n) (p := .running)
        (Core.job?_pos (c := m.core) hi)
      rw [show m.core.job? n = none from hn] at this
      cases this.symm.trans hj
    · intro m ts b _ _ hn hj
      cases hn.symm.trans hj
    · intro S T a rest reply others M C hn hj
      exact ⟨a, rfl, M.asks C hn hj⟩
  · have stale := C.stale_run r ((Machine.stale_iff C.booked hj).mpr hno)
    obtain ⟨j', hj', ho, ht⟩ := stale.1
    refine ⟨(Machine.stale_iff (C.run r).booked hj').mp (ho ▸ ht ▸ stale), fun rest reply => ?_⟩
    constructor
    · simp [Thread.step?, Instr.blocked, Machine.exec_takeTurn_of_stale stale]
    · simp [Thread.step?, Instr.blocked, Machine.exec_finishTurn_of_stale stale]
  · intro n n' j j' hj hj' ho h h'
    obtain ⟨i, k, hi, hk, hc⟩ := h.recorded C.booked
    obtain ⟨i', k', hi', hk', hc'⟩ := h'.recorded C.booked
    obtain rfl : j = i := by simpa [hj] using hi
    obtain rfl : j' = i' := by simpa [hj'] using hi'
    rw [← ho, hk] at hk'
    cases hk'
    exact congrArg Turn.job (Option.some.inj (hc.symm.trans hc'))

/-- The first job of the restarted instance waits in the pool, for nothing. -/
theorem dispatch_discipline_restarted :
    (∃ j, restarted.machine.job? 1 = some j ∧ j.phase = .queued) ∧
      ¬ restarted.machine.Recorded 1 ∧
      ∀ h T, Run restarted h T → ¬ T.machine.Recorded 1 := by
  have stale : ¬ restarted.machine.Recorded 1 :=
    (Machine.stale_iff restarted_reachable.coherent.booked rfl).mp
      ⟨⟨_, rfl, rfl, rfl⟩, _, rfl, by decide⟩
  refine ⟨⟨_, rfl, rfl⟩, stale, fun h T r => ?_⟩
  exact ((dispatch_discipline restarted_reachable).2.1 1 _ rfl stale h T r).1

end System

end ScriptHost
