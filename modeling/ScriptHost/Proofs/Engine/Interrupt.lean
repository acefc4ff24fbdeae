import ScriptHost.Proofs.Engine.Dispatch

/-!
# Interrupts

A turn is interrupted by a stop only, once that has waited for the turn in
vain; and the stop gives the turn up in its next section. So while no stop of
an instance is under way, its outstanding turn has not been interrupted
(`Life.not_interrupted`).
-/

namespace ScriptHost

/-- What a stop relies on: it waits for a turn of its instance, and gives up the turn that it has
forced to end. -/
def Instr.Forces (c : Core) (later : List Instr) : Instr → Prop
  | .stopWait id _ turn | .stopWaited id _ turn _ | .stopCheck id _ turn =>
    c.IsTurn turn.job id turn.ticket
  | .stopAbort id turn => c.IsTurn turn.job id turn.ticket ∧ .stopEnd id turn ∈ later
  | _ => True

theorem Instr.forces_of_bringsUp {c : Core} {id : Nat} {a : Instr} (h : a.bringsUp id = true)
    (later : List Instr) : a.Forces c later := by
  cases a <;> trivial

theorem Instr.Forces.grows {a b : Instr} {c c' : Core} {later : List Instr}
    (F : b.Forces c later) (G : c.Grows a c') : b.Forces c' later := by
  cases b with
  | stopWait | stopWaited | stopCheck => exact G.turn _ _ _ F
  | stopAbort => exact ⟨G.turn _ _ _ F.1, F.2⟩
  | _ => trivial

namespace Effect

variable {m : Machine} {a : Instr} {c : Core} {next rest later : List Instr}

theorem lined_forces {W : Nat → Turn → Prop} (e : Effect m a c next) (B : m.core.Booked W)
    (G : m.core.Grows a c) (F : a.Forces m.core rest) :
    Lined (fun later => Instr.Forces c (later ++ rest)) next := by
  have up : ∀ (id : Nat) {l : List Instr} {f : List Instr → List Instr},
      (∀ b ∈ l, b.bringsUp id = true) → Lined (fun later => Instr.Forces c (f later)) l :=
    fun _ _ _ h => .of_forall fun b hb _ => Instr.forces_of_bringsUp (h b hb) _
  have light : ∀ {l : List Instr} {f : List Instr → List Instr}, (∀ b ∈ l, b.light = true) →
      Lined (fun later => Instr.Forces c (f later)) l :=
    fun h => up 0 fun b hb => Instr.bringsUp_of_light 0 (h b hb)
  have finish : ∀ (id : Nat) (l : Loading),
      Lined (fun later => Instr.Forces c (later ++ rest)) (Instr.finishLoad id l) := fun id l => by
    unfold Instr.finishLoad
    cases l.registers <;> simp [Lined, Instr.Forces]
  cases e with
  | silent _ h => exact light h
  | unregister _ h => exact ⟨trivial, light h⟩
  | @reset id running =>
    cases running <;> simp [Instr.resetAll, Instr.revokeGrants, Lined, Instr.Forces]
  | @await id ms s turn hs _ hc =>
    obtain ⟨j, hj, ho, ht, -⟩ := B.outstanding id s turn hs hc
    exact ⟨G.turn _ _ _ ⟨j, hj, ho, ht⟩, trivial⟩
  | wait => exact Lined.append (light Instr.light_nested) ⟨F, trivial⟩
  | overdue => exact ⟨F, trivial⟩
  | check => exact ⟨⟨F, by simp⟩, trivial, trivial⟩
  | @fresh a id l => exact Lined.append (up id Instr.bringsUp_freshStart) (finish id l)
  | @restore id l d => exact Lined.append (up id Instr.bringsUp_restore) (finish id l)
  | takeSwitch _ _ _ _ h => exact Lined.append (light h) ⟨trivial, trivial⟩
  | _ => simp [Lined, Instr.Forces]

/-- An interrupted job was interrupted before, or a stop has just forced its end. -/
theorem interrupted (e : Effect m a c next) (F : a.Fits m.core later) {n : Nat} {j : Job}
    (hj : c.job? n = some j) (hi : j.interrupted = true) :
    (∃ j, m.core.job? n = some j ∧ j.interrupted = true) ∨
      (∃ j, m.core.job? n = some j) ∧ ∃ id turn, a = .stopAbort id turn ∧ n - 1 = turn.job - 1 := by
  have revised : ∀ {id : Nat} {r : Revision}, (m.core.revise id r).job? n = some j →
      ∃ j, m.core.job? n = some j ∧ j.interrupted = true := fun h => by
    rw [Core.job?_revise] at h
    split at h
    · cases h; cases hi
    · exact ⟨j, h, hi⟩
  have rephased : ∀ {k : Nat} {p : Phase}, 0 < k → (m.core.rephase k p).job? n = some j →
      ∃ j, m.core.job? n = some j ∧ j.interrupted = true := fun hk h => by
    rw [Core.job?_rephase hk] at h
    obtain ⟨i, hi', rfl⟩ := Option.map_eq_some_iff.mp h
    exact ⟨i, hi', by revert hi; split <;> exact fun h => h⟩
  cases e with
  | @trip id turn =>
    rw [Core.job?_trip] at hj
    obtain ⟨i, hi', rfl⟩ := Option.map_eq_some_iff.mp hj
    by_cases hn : n - 1 = turn.job - 1
    · exact .inr ⟨⟨i, hi'⟩, id, turn, rfl, hn⟩
    · rw [if_neg hn] at hi
      exact .inl ⟨i, hi', hi⟩
  | cancel _ _ _ hcan =>
    obtain ⟨i, hi', -⟩ := Machine.queued_of_canCancel hcan
    rw [Core.rephase_revise, Core.job?_rephase (Core.job?_pos hi')] at hj
    obtain ⟨k, hk, rfl⟩ := Option.map_eq_some_iff.mp hj
    rw [Core.job?_revise, if_neg (by simp)] at hk
    exact .inl ⟨k, hk, by revert hi; split <;> exact fun h => h⟩
  | takeBack _ hi' => exact .inl (rephased (Core.job?_pos hi') hj)
  | run hi' => exact .inl (rephased (Core.job?_pos hi') hj)
  | done =>
    obtain ⟨i, hi', -⟩ := F
    exact .inl (rephased (Core.job?_pos hi') hj)
  | start | post | clear | refill | halt | await | giveUp | idle | takeSwitch | take | handOn =>
    exact .inl (revised hj)
  | _ => exact .inl ⟨j, hj, hi⟩

end Effect

namespace System

/-- Stops can rely on what they rely on, and an outstanding turn that has been interrupted is about
to be given up. -/
structure Forced (S : System) : Prop where
  agendas : ∀ t ∈ S.threads, Lined (Instr.Forces S.machine.core) t.agenda
  ending : ∀ (id : Nat) (s : Slot) (turn : Turn) (j : Job), S.machine.core.slots[id]? = some s →
    s.current = some turn → S.machine.core.job? turn.job = some j → j.interrupted = true →
    .stopEnd id turn ∈ S.pending

section

variable {S T : System} {a : Instr} {rest : List Instr} {reply : Reply} {others : List Thread}
  {id : Nat} {turn : Turn} {s : Slot}

/-- An outstanding turn whose job is not new was outstanding before. -/
theorem Moves.outstanding_before (M : Moves S a rest reply others T) (C : S.Coherent) {j : Job}
    (hs : T.machine.core.slots[id]? = some s) (hc : s.current = some turn)
    (hj : S.machine.core.job? turn.job = some j) :
    ∃ s, S.machine.core.slots[id]? = some s ∧ s.current = some turn := by
  have G := M.grows C
  obtain ⟨j', hj', ho, ht, -⟩ := (M.coherent C).booked.outstanding id s turn hs hc
  obtain ⟨i, hi, ho', ht'⟩ := G.turn _ _ _ ⟨j, hj, rfl, rfl⟩
  obtain rfl : i = j' := Option.some.inj (hi.symm.trans hj')
  obtain ⟨s₀, hs₀, hle⟩ := C.booked.owners _ j hj
  rw [← ho', ho] at hs₀
  obtain ⟨s', hs', -, hturn⟩ := G.turns id s₀ hs₀
  obtain rfl : s = s' := Option.some.inj (hs.symm.trans hs')
  rcases hturn turn hc with h | h
  · exact ⟨s₀, hs₀, h⟩
  · omega

/-- A stop that ends leaves its turn no longer outstanding. -/
theorem Moves.not_outstanding (M : Moves S (.stopEnd id turn) rest reply others T)
    (C : S.Coherent) (hs : S.machine.core.slots[id]? = some s)
    {s' : Slot} (hs' : T.machine.core.slots[id]? = some s') : s'.current ≠ some turn := by
  have e := M.effect
  generalize T.machine.core = c, ((Instr.stopEnd id turn).exec S.machine reply).next = next at e hs'
  cases e with
  | silent h => cases h
  | absent h hno => cases h; cases (Machine.slots_of_get?_none hno).symm.trans hs
  | fresh h => rcases h with h | h <;> cases h
  | @giveUp _ _ s₀ hs₀ =>
    obtain rfl : s = s₀ := Option.some.inj (hs.symm.trans hs₀)
    rw [Core.slots_revise hs, if_pos rfl] at hs'
    have gone : s'.owns turn.ticket = false := by
      rw [← Option.some.inj hs']
      exact Slot.not_owns_giveUp (C.booked.ticket_le hs)
    exact fun he => Bool.false_ne_true (gone.symm.trans (Slot.owns_iff.mpr ⟨turn, he, rfl⟩))

theorem Moves.forced (M : Moves S a rest reply others T) (C : S.Coherent) (F : S.Forced) :
    T.Forced where
  agendas t ht := by
    have kept : ∀ {l : List Instr}, Lined (Instr.Forces S.machine.core) l →
        Lined (Instr.Forces T.machine.core) l := fun h =>
      h.imp fun _ _ _ _ hb => hb.grows (M.grows C)
    rcases M.threads t ht with h | h
    · obtain ⟨first, later⟩ := F.agendas _ M.mover
      rw [h]
      exact Lined.append (M.effect.lined_forces C.booked (M.grows C) first) (kept later)
    · exact kept (F.agendas t (M.still t h))
  ending id s turn j hs hc hj hi := by
    refine M.mem_after.mpr (.inr ?_)
    rcases M.effect.interrupted (M.fits C) hj hi with ⟨j₀, hj₀, hi₀⟩ | ⟨⟨j₀, hj₀⟩, k, forced, rfl, hn⟩
    · obtain ⟨s₀, hs₀, hc₀⟩ := M.outstanding_before C hs hc hj₀
      refine (M.mem_before.mp (F.ending id s₀ turn j₀ hs₀ hc₀ hj₀ hi₀)).resolve_left ?_
      rintro rfl
      exact M.not_outstanding C hs₀ hs hc
    · obtain ⟨s₀, hs₀, hc₀⟩ := M.outstanding_before C hs hc hj₀
      obtain ⟨⟨⟨i, hi', rfl, ht⟩, later⟩, -⟩ := F.agendas _ M.mover
      have same : turn.job = forced.job := by
        have := Core.job?_pos hi'
        have := Core.job?_pos hj₀
        omega
      obtain ⟨i', hi'', rfl, ht', -⟩ := C.booked.outstanding id s₀ turn hs₀ hc₀
      rw [same, hi'] at hi''
      obtain rfl : i = i' := Option.some.inj hi''
      obtain rfl : turn = forced := by
        cases turn; cases forced
        simp_all
      exact List.mem_append_left _ later

end

theorem Life.forced {h : List Section} {S : System} (H : Life h S) : S.Forced := by
  refine H.induct_steps (P := fun _ S => S.Forced) ?_ ?_ ?_ ?_ ?_
  · intro m hm
    refine ⟨fun t ht => (List.not_mem_nil ht).elim, fun id s turn j hs => ?_⟩
    simp [Machine.core, Machine.slots, hm.instances] at hs
  · intro h m ts o F
    refine ⟨fun t ht => ?_, fun id s turn j hs hc hj hi => ?_⟩
    · rcases List.mem_append.mp ht with ht | ht
      · exact F.agendas t ht
      · obtain rfl := List.mem_singleton.mp ht
        exact ⟨trivial, trivial⟩
    · rw [pending_append m m]
      exact List.mem_append_left _ (F.ending id s turn j hs hc hj hi)
  · intro h m ts n j _ hj hq F
    have G : m.core.Grows .noteReply (m.setPhase n .running).core := .claim hj hq
    refine ⟨fun t ht => ?_, fun id s turn j' hs hc hj' hi => ?_⟩
    · rcases List.mem_append.mp ht with ht | ht
      · exact (F.agendas t ht).imp fun _ _ _ _ hb => hb.grows G
      · obtain rfl := List.mem_singleton.mp ht
        exact ⟨trivial, trivial, trivial⟩
    · rw [pending_append _ m]
      have rephased := Core.job?_rephase (c := m.core) (k := turn.job) (p := .running)
        (Core.job?_pos (c := m.core) hj)
      obtain ⟨i, hi', rfl⟩ := Option.map_eq_some_iff.mp (rephased.symm.trans hj')
      refine List.mem_append_left _ (F.ending id s turn i hs hc hi' ?_)
      revert hi
      split <;> exact fun h => h
  · intro h m ts b F
    exact ⟨F.agendas, F.ending⟩
  · intro h S T a rest reply others H M F
    exact M.forced H.coherent F

/-- While no stop of the instance is under way, the job of its outstanding turn has neither been
interrupted nor come to its end. -/
theorem Life.not_interrupted {h : List Section} {S : System} (H : Life h S) {id : Nat} {s : Slot}
    {turn : Turn} (hs : S.machine.core.slots[id]? = some s) (hc : s.current = some turn)
    (unstopped : .stopEnd id turn ∉ S.pending) :
    ∃ j, S.machine.core.job? turn.job = some j ∧ j.finished = false ∧ j.interrupted = false := by
  obtain ⟨j, hj, -, -, hp⟩ := H.coherent.booked.outstanding id s turn hs hc
  refine ⟨j, hj, ?_, Bool.eq_false_iff.mpr fun hi =>
    unstopped (H.forced.ending id s turn j hs hc hj hi)⟩
  rcases hp with hq | ⟨hr, -⟩
  · simp [Job.finished, hq]
  · simp [Job.finished, hr]

end System

end ScriptHost
