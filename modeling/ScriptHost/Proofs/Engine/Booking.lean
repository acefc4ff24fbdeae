import ScriptHost.Proofs.Engine.Effect

/-!
# Slots and jobs

A slot and the jobs of its instance are kept in step: tickets go up with the
jobs, the outstanding turn is the job of its ticket, and that job either has
not started or is being worked at (`Core.Booked`). A slot with something to run
has a turn outstanding. Revisions and changes of phase keep this.
-/

namespace ScriptHost

/-- What every section does to a slot: tickets stay, the outstanding turn stays or is given up, and
if the pool is not asked for a turn then none was missing. -/
structure Slot.Sound (s : Slot) (r : Revision) : Prop where
  lastTicket : r.slot.lastTicket = s.lastTicket
  current : r.slot.current = s.current ∨ r.slot.current = none
  busy : (s.hasWork = true → s.current ≠ none) → r.asks = false → r.slot.hasWork = true →
    r.slot.current ≠ none

namespace Slot

theorem hasWork_iff {s : Slot} :
    s.hasWork = true ↔ s.running = true ∧ s.queue.isEmpty = false := by
  simp [hasWork]

variable {s : Slot}

theorem sound_start : s.Sound s.start := by
  unfold start
  split
  · exact ⟨rfl, .inl rfl, fun h _ => h⟩
  · refine ⟨rfl, .inl rfl, fun _ ha hw => ?_⟩
    have := (hasWork_iff.mp hw).2
    intro hc
    simp_all

theorem sound_halt (taken : Bool) : s.Sound ⟨s.halt taken, false⟩ := by
  refine ⟨rfl, ?_, fun _ _ hw => ?_⟩
  · cases taken
    · exact .inl rfl
    · exact .inr rfl
  · simp [hasWork, halt] at hw

theorem sound_giveUp (ticket : Nat) : s.Sound (s.giveUp ticket) := by
  unfold giveUp
  split
  · exact ⟨rfl, .inr rfl, fun _ ha hw => absurd (ha.symm.trans hw) Bool.false_ne_true⟩
  · exact ⟨rfl, .inl rfl, fun h _ => h⟩

theorem push_of_refused {q : Queue} {e : Event}
    (h : (q.push e).2.isAccepted = false) : (q.push e).1 = q := by
  unfold Queue.push at h ⊢
  split
  · rfl
  · split
    · rfl
    · simp_all [Posting.isAccepted]

theorem sound_post (e : Event) : s.Sound (s.post e) := by
  unfold post
  split
  · refine ⟨rfl, .inl rfl, fun h ha hw hc => ?_⟩
    simp only at ha hw hc
    have hr : (s.queue.push e).2.isAccepted = false := by simpa [hc] using ha
    rw [push_of_refused hr] at hw
    exact h hw hc
  · exact ⟨rfl, .inl rfl, fun h _ => h⟩

theorem sound_clear : s.Sound ⟨{ s with queue := s.queue.clear }, false⟩ :=
  ⟨rfl, .inl rfl, fun _ _ hw => by simp [hasWork, Queue.clear, Queue.empty, Queue.isEmpty] at hw⟩

/-- A queue is refilled before its instance runs. -/
theorem sound_refill (l : List Event) (h : s.running = false) :
    s.Sound ⟨{ s with queue := s.queue.pushAll l }, false⟩ :=
  ⟨rfl, .inl rfl, fun _ _ hw => by simp [hasWork, h] at hw⟩

theorem sound_idle (h : s.queue.events = []) : s.Sound ⟨{ s with current := none }, false⟩ :=
  ⟨rfl, .inr rfl, fun _ _ hw => by simp [hasWork, Queue.isEmpty, h] at hw⟩

theorem sound_take {ticket : Nat} {rest : Queue} (h : s.owns ticket = true) :
    s.Sound ⟨{ s with queue := rest }, false⟩ := by
  obtain ⟨turn, ht, -⟩ := owns_iff.mp h
  exact ⟨rfl, .inl rfl, fun _ _ _ hc => by simp [ht] at hc⟩

theorem sound_handOn (ticket : Nat) : s.Sound (s.handOn ticket) := by
  unfold handOn
  split
  · split
    · exact ⟨rfl, .inl rfl, fun _ ha => by simp at ha⟩
    · next hw => exact ⟨rfl, .inr rfl, fun _ _ h => absurd h hw⟩
  · exact ⟨rfl, .inl rfl, fun h _ => h⟩

/-- After a turn has been finished its ticket is not the outstanding one. -/
theorem ticket_ne_of_handOn {ticket job : Nat} {turn : Turn}
    (h : ∀ turn, s.current = some turn → turn.ticket ≤ s.lastTicket)
    (hc : (if (s.handOn ticket).asks then (s.handOn ticket).slot.ask job
      else (s.handOn ticket).slot).current = some turn) : ticket ≠ turn.ticket := by
  unfold handOn at hc
  split at hc
  · next ho =>
    obtain ⟨old, hold, rfl⟩ := owns_iff.mp ho
    have := h old hold
    split at hc
    · cases hc; simp only; omega
    · cases hc
  · next ho =>
    intro he
    exact ho (owns_iff.mpr ⟨turn, hc, he.symm⟩)

/-- A turn that is given up is not the outstanding one. -/
theorem not_owns_giveUp {ticket job : Nat}
    (h : ∀ turn, s.current = some turn → turn.ticket ≤ s.lastTicket) :
    (if (s.giveUp ticket).asks then (s.giveUp ticket).slot.ask job
      else (s.giveUp ticket).slot).owns ticket = false := by
  unfold giveUp
  by_cases ho : s.owns ticket = true
  · obtain ⟨turn, hc, rfl⟩ := owns_iff.mp ho
    have := h turn hc
    rw [if_pos ho]
    simp only
    split
    · simp only [ask, owns]
      exact beq_eq_false_iff_ne.mpr (by omega)
    · rfl
  · rw [if_neg ho]
    simpa using ho

end Slot

namespace Core

variable {c : Core} {id n k : Nat} {r : Revision} {s : Slot} {j : Job}

theorem job?_pos (h : c.job? n = some j) : 0 < n := by
  unfold job? at h; split at h
  · cases h
  · omega

theorem job?_le (h : c.job? n = some j) : n ≤ c.jobs.length := by
  have := job?_pos h
  unfold job? at h; rw [if_neg (by omega)] at h
  have := (List.getElem?_eq_some_iff.mp h).1
  omega

theorem job?_revise : (c.revise id r).job? n =
    if r.asks = true ∧ n = c.jobs.length + 1 then some ⟨id, r.slot.lastTicket + 1, .queued, false⟩
    else c.job? n := by
  unfold job? revise
  by_cases h0 : n = 0
  · simp [h0]
  · simp only [h0, if_false]
    cases ha : r.asks with
    | false => simp
    | true =>
      simp only [if_true, true_and]
      split
      · next hn => simp [hn]
      · next hn =>
        rcases Nat.lt_or_ge (n - 1) c.jobs.length with h | h
        · rw [List.getElem?_append_left h]
        · rw [List.getElem?_eq_none h, List.getElem?_eq_none (by simp; omega)]

theorem job?_revise_of_some (h : c.job? n = some j) : (c.revise id r).job? n = some j := by
  have := job?_le h
  rw [job?_revise, if_neg (by omega), h]

theorem job?_rephase {p : Phase} (hn : 0 < n) : (c.rephase n p).job? k =
    (c.job? k).map fun j => if k = n then { j with phase := p } else j := by
  unfold job? rephase
  split
  · rfl
  · simp only [List.getElem?_modify]
    by_cases h : k = n
    · subst h; simp
    · have : n - 1 ≠ k - 1 := by omega
      simp [this, h]

theorem job?_trip : (c.trip n).job? k =
    (c.job? k).map fun j => if k - 1 = n - 1 then { j with interrupted := true } else j := by
  unfold job? trip
  split
  · rfl
  · simp only [List.getElem?_modify]
    by_cases h : k - 1 = n - 1
    · simp [h]
    · simp [Ne.symm h, h]

theorem slots_revise (h : c.slots[id]? = some s) : (c.revise id r).slots[k]? =
    if k = id then some (if r.asks then r.slot.ask (c.jobs.length + 1) else r.slot)
    else c.slots[k]? := by
  have hlt := (List.getElem?_eq_some_iff.mp h).1
  unfold revise
  simp only [List.getElem?_set]
  by_cases hk : k = id
  · subst hk; simp [hlt]
  · simp [hk, Ne.symm hk]

theorem slots_create {l : Loading} : (c.create l).slots[k]? =
    if k = c.slots.length then some ⟨.empty l.limits.queueCapacity, false, none, 0⟩
    else c.slots[k]? := by
  unfold create
  by_cases h : k = c.slots.length
  · subst h; simp
  · simp only [h, if_false]
    rcases Nat.lt_or_ge k c.slots.length with hk | hk
    · rw [List.getElem?_append_left hk]
    · rw [List.getElem?_eq_none hk, List.getElem?_eq_none (by simp; omega)]

theorem rephase_revise {p : Phase} {s' : Slot} :
    (c.rephase n p).revise id ⟨s', false⟩ = (c.revise id ⟨s', false⟩).rephase n p := by
  simp [rephase, revise]

/-! ## Bookkeeping -/

/-- The job of the outstanding turn has not started, or the turn is at work. -/
def Outstanding (c : Core) (AtWork : Nat → Turn → Prop) (id : Nat) (turn : Turn) : Prop :=
  ∃ j, c.job? turn.job = some j ∧ j.owner = id ∧ j.ticket = turn.ticket ∧
    (j.phase = .queued ∨ j.phase = .running ∧ AtWork id turn)

structure Booked (c : Core) (AtWork : Nat → Turn → Prop) : Prop where
  owners : ∀ (n : Nat) (j : Job), c.job? n = some j →
    ∃ s, c.slots[j.owner]? = some s ∧ j.ticket ≤ s.lastTicket
  tickets : ∀ (n n' : Nat) (j j' : Job), n < n' → c.job? n = some j → c.job? n' = some j' →
    j.owner = j'.owner → j.ticket < j'.ticket
  outstanding : ∀ (id : Nat) (s : Slot) (turn : Turn), c.slots[id]? = some s →
    s.current = some turn → c.Outstanding AtWork id turn
  busy : ∀ (id : Nat) (s : Slot), c.slots[id]? = some s → s.hasWork = true → s.current ≠ none

namespace Booked

variable {W W' : Nat → Turn → Prop}

/-- A ticket tells the jobs of an instance apart. -/
theorem job_unique (B : c.Booked W) {n n' : Nat} {j j' : Job} (h : c.job? n = some j)
    (h' : c.job? n' = some j') (ho : j.owner = j'.owner) (ht : j.ticket = j'.ticket) :
    n = n' := by
  rcases Nat.lt_trichotomy n n' with hn | hn | hn
  · have := B.tickets n n' j j' hn h h' ho; omega
  · exact hn
  · have := B.tickets n' n j' j hn h' h ho.symm; omega

theorem ticket_le (B : c.Booked W) (hs : c.slots[id]? = some s) :
    ∀ turn, s.current = some turn → turn.ticket ≤ s.lastTicket := by
  intro turn hc
  obtain ⟨j, hj, rfl, ht, -⟩ := B.outstanding id s turn hs hc
  obtain ⟨s', hs', hle⟩ := B.owners _ j hj
  obtain rfl : s' = s := by simpa [hs] using hs'.symm
  exact ht ▸ hle

theorem mono (B : c.Booked W) (h : ∀ id s turn, c.slots[id]? = some s →
    s.current = some turn → W id turn → W' id turn) : c.Booked W' where
  owners := B.owners
  tickets := B.tickets
  outstanding id s turn hs hc := by
    obtain ⟨j, hj, ho, ht, hp⟩ := B.outstanding id s turn hs hc
    exact ⟨j, hj, ho, ht, hp.imp_right fun ⟨hr, hw⟩ => ⟨hr, h id s turn hs hc hw⟩⟩
  busy := B.busy

theorem congr {c' : Core} (B : c.Booked W) (hj : c'.jobs = c.jobs) (hs : c'.slots = c.slots) :
    c'.Booked W := by
  have e : ∀ n, c'.job? n = c.job? n := fun n => by simp [job?, hj]
  refine ⟨?_, ?_, ?_, ?_⟩
  · simpa only [e, hs] using B.owners
  · simpa only [e] using B.tickets
  · simpa only [Outstanding, e, hs] using B.outstanding
  · simpa only [hs] using B.busy

theorem revise (B : c.Booked W) (hs : c.slots[id]? = some s) (hr : s.Sound r) :
    (c.revise id r).Booked W where
  owners n j hj := by
    rw [job?_revise] at hj
    split at hj
    · next h =>
      cases hj
      refine ⟨_, (slots_revise hs).trans (if_pos rfl), ?_⟩
      simp [h.1, Slot.ask]
    · obtain ⟨s', hs', ht⟩ := B.owners n j hj
      by_cases hk : j.owner = id
      · rw [hk] at hs' ⊢
        obtain rfl : s' = s := by simpa [hs] using hs'.symm
        refine ⟨_, (slots_revise hs).trans (if_pos rfl), ?_⟩
        have := hr.lastTicket
        split
        · simp only [Slot.ask]; omega
        · omega
      · exact ⟨s', (slots_revise hs).trans ((if_neg hk).trans hs'), ht⟩
  tickets n n' j j' hn hj hj' ho := by
    rw [job?_revise] at hj hj'
    split at hj
    · next h =>
      rw [if_neg (by omega)] at hj'
      have := job?_le hj'
      omega
    · split at hj'
      · next h =>
        cases hj'
        obtain ⟨s', hs', ht⟩ := B.owners n j hj
        rw [ho] at hs'
        obtain rfl : s' = s := by simpa [hs] using hs'.symm
        have := hr.lastTicket
        simp only; omega
      · exact B.tickets n n' j j' hn hj hj' ho
  outstanding k s' turn hk hc := by
    rw [slots_revise hs] at hk
    split at hk
    · next he =>
      subst he
      cases hk
      split at hc
      · next ha =>
        cases hc
        exact ⟨_, job?_revise.trans (if_pos ⟨ha, rfl⟩), rfl, rfl, .inl rfl⟩
      · rcases hr.current with h | h
        · obtain ⟨j, hj, h⟩ := B.outstanding k s turn hs (h ▸ hc)
          exact ⟨j, job?_revise_of_some hj, h⟩
        · rw [h] at hc; cases hc
    · obtain ⟨j, hj, h⟩ := B.outstanding k s' turn hk hc
      exact ⟨j, job?_revise_of_some hj, h⟩
  busy k s' hk hw := by
    rw [slots_revise hs] at hk
    split at hk
    · cases hk
      split at hw
      · next ha => rw [if_pos ha]; simp [Slot.ask]
      · next ha =>
        rw [if_neg ha]
        exact hr.busy (B.busy id s hs) (by simpa using ha) hw
    · exact B.busy k s' hk hw

theorem rephase {p : Phase} (B : c.Booked W) (hn : 0 < n)
    (hp : ∀ id s turn, c.slots[id]? = some s → s.current = some turn → turn.job = n →
      p = .queued ∨ p = .running ∧ W id turn) : (c.rephase n p).Booked W where
  owners k j hj := by
    rw [job?_rephase hn] at hj
    obtain ⟨j', hj', rfl⟩ := Option.map_eq_some_iff.mp hj
    obtain ⟨s, hs, ht⟩ := B.owners k j' hj'
    exact ⟨s, by split <;> exact hs, by split <;> exact ht⟩
  tickets k k' j j' hk hj hj' ho := by
    rw [job?_rephase hn] at hj hj'
    obtain ⟨i, hi, rfl⟩ := Option.map_eq_some_iff.mp hj
    obtain ⟨i', hi', rfl⟩ := Option.map_eq_some_iff.mp hj'
    have := B.tickets k k' i i' hk hi hi' (by revert ho; split <;> split <;> exact fun h => h)
    split <;> split <;> exact this
  outstanding id s turn hs hc := by
    obtain ⟨j, hj, ho, ht, h⟩ := B.outstanding id s turn hs hc
    refine ⟨_, by rw [job?_rephase hn, hj]; rfl, ?_⟩
    split
    · next he => exact ⟨ho, ht, hp id s turn hs hc he⟩
    · exact ⟨ho, ht, h⟩
  busy := B.busy

/-- A job that is started is at work, if it is that of an outstanding turn. -/
theorem claim {j : Job} (B : c.Booked W) (hj : c.job? n = some j)
    (hW : ∀ turn : Turn, turn.job = n → turn.ticket = j.ticket → W j.owner turn) :
    (c.rephase n .running).Booked W := by
  refine B.rephase (job?_pos hj) fun id s turn hs hc he => .inr ⟨rfl, ?_⟩
  obtain ⟨i, hi, ho, ht, -⟩ := B.outstanding id s turn hs hc
  rw [he, hj] at hi
  cases hi
  exact ho ▸ hW turn he ht.symm

/-- A stop that gets the turn back: the job belongs to the instance, which has no turn now. -/
theorem cancel {turn : Turn} {j : Job} (B : c.Booked W) (hs : c.slots[id]? = some s)
    (hc : s.current = some turn) (hj : c.job? turn.job = some j) :
    ((c.rephase turn.job .cancelled).revise id ⟨s.halt true, false⟩).Booked W := by
  have B' := B.revise hs (Slot.sound_halt true)
  rw [rephase_revise]
  refine B'.rephase (job?_pos hj) fun id' s' turn' hs' hc' he => ?_
  obtain ⟨i, hi, ho, -⟩ := B'.outstanding id' s' turn' hs' hc'
  obtain ⟨i', hi', ho', -⟩ := B.outstanding id s turn hs hc
  rw [he, job?_revise_of_some hi'] at hi
  cases hi
  rw [slots_revise hs, if_pos (ho.symm.trans ho')] at hs'
  cases hs'
  cases hc'

theorem trip (B : c.Booked W) : (c.trip n).Booked W where
  owners k j hj := by
    rw [job?_trip] at hj
    obtain ⟨j', hj', rfl⟩ := Option.map_eq_some_iff.mp hj
    obtain ⟨s, hs, ht⟩ := B.owners k j' hj'
    exact ⟨s, by split <;> exact hs, by split <;> exact ht⟩
  tickets k k' j j' hk hj hj' ho := by
    rw [job?_trip] at hj hj'
    obtain ⟨i, hi, rfl⟩ := Option.map_eq_some_iff.mp hj
    obtain ⟨i', hi', rfl⟩ := Option.map_eq_some_iff.mp hj'
    have := B.tickets k k' i i' hk hi hi' (by revert ho; split <;> split <;> exact fun h => h)
    split <;> split <;> exact this
  outstanding id s turn hs hc := by
    obtain ⟨j, hj, ho, ht, h⟩ := B.outstanding id s turn hs hc
    refine ⟨_, by rw [job?_trip, hj]; rfl, ?_⟩
    split <;> exact ⟨ho, ht, h⟩
  busy := B.busy

theorem create {l : Loading} (B : c.Booked W) : (c.create l).Booked W where
  owners n j hj := by
    obtain ⟨s, hs, ht⟩ := B.owners n j hj
    have := (List.getElem?_eq_some_iff.mp hs).1
    exact ⟨s, by rw [slots_create, if_neg (by omega), hs], ht⟩
  tickets := B.tickets
  outstanding id s turn hs hc := by
    rw [slots_create] at hs
    split at hs
    · cases hs; cases hc
    · exact B.outstanding id s turn hs hc
  busy id s hs hw := by
    rw [slots_create] at hs
    split at hs
    · cases hs; simp [Slot.hasWork] at hw
    · exact B.busy id s hs hw

end Booked

end Core

end ScriptHost
