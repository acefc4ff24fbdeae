import ScriptHost.Proofs.Engine.Agenda
import ScriptHost.Proofs.Engine.Run

/-!
# Coherence

The invariant of all reachable systems: every agenda can rely on what it
relies on, no key is held twice, instances that have a name are no longer being
loaded, and slots and jobs are in step. `Reachable.coherent` is read by
everything that is said about runs.
-/

namespace ScriptHost

/-- Someone is about to take the turn, or is at it and will finish it. -/
def Attended (l : List Instr) (id : Nat) (turn : Turn) : Prop :=
  .takeTurn id turn.ticket turn.job ∈ l ∨ .finishTurn id turn.ticket ∈ l

structure System.Coherent (S : System) : Prop where
  pool : S.machine.core.abortsRunning = true → S.machine.core.refusesCancel = false
  named : ∀ id, S.machine.core.Named id →
    id < S.machine.core.slots.length ∧ .opening id ∉ keys S.pending
  keys : (keys S.pending).Nodup
  agendas : ∀ t ∈ S.threads, Lined (Instr.Fits S.machine.core) t.agenda
  booked : S.machine.core.Booked (Attended S.pending)

/-! ## Keys -/

/-- The state in which a key can be held. -/
def Key.Valid (c : Core) : Key → Prop
  | .opening id => id < c.slots.length
  | .taking n | .ending n => c.Started n

theorem Instr.Fits.valid {c : Core} {later : List Instr} {a : Instr} {k : Key}
    (F : a.Fits c later) (h : a.key? = some k) : k.Valid c := by
  cases a with
  | recoverSize id l => cases h; exact F.lt
  | recoverRead id l => cases h; exact F.lt
  | loaded id name place => cases h; exact F
  | takeTurn id ticket n => cases h; exact F.2.1.started
  | jobDone n => cases h; exact Core.AtWork.started F
  | _ => cases h

theorem keys_finishLoad (id : Nat) (l : Loading) :
    keys (Instr.finishLoad id l) = [.opening id] := by
  unfold Instr.finishLoad
  rw [keys_append]
  cases l.registers <;> rfl

namespace Effect

variable {m : Machine} {a : Instr} {c : Core} {next rest : List Instr}

/-- A section hands its key on, has none to hand on, or gets some that nobody can have. -/
theorem keys_next (e : Effect m a c next) : keys next = [] ∨ keys next = keys [a] ∨
    (keys next).Nodup ∧ ∀ k ∈ keys next, ¬ k.Valid m.core := by
  have noKeys : ∀ {l : List Instr}, (∀ b ∈ l, b.light = true) → keys l = [] :=
    fun h => keys_of_light h
  cases e with
  | silent _ h => exact .inl (noKeys h)
  | unregister _ h => exact .inl (noKeys (by simpa [Instr.light] using h))
  | @reset id running => left; cases running <;> rfl
  | @wait id ms turn ops forced =>
    left
    rw [keys_append, noKeys Instr.light_nested]; rfl
  | create => exact .inr (.inr ⟨by simp [keys, Instr.key?], by simp [keys, Instr.key?, Key.Valid]⟩)
  | found => exact .inr (.inl rfl)
  | @fresh a id l h =>
    right; left
    have : keys [a] = [.opening id] := by rcases h with rfl | rfl <;> rfl
    rw [this, keys_append, keys_bringsUp Instr.bringsUp_freshStart, keys_finishLoad]
    rfl
  | @restore id l d =>
    right; left
    rw [keys_append, keys_bringsUp Instr.bringsUp_restore, keys_finishLoad]
    rfl
  | @run turns ran n j hj hq =>
    right; right
    rw [show keys [.takeTurn j.owner j.ticket n, .jobDone n, .run turns (ran + 1)] =
      [.taking n, .ending n] from rfl]
    exact ⟨by simp, by simpa [Key.Valid] using Core.not_started hj hq⟩
  | takeSwitch _ _ _ _ h => left; rw [keys_append, noKeys h]; rfl
  | _ => exact .inl rfl

theorem named_or (e : Effect m a c next) {id : Nat} (h : c.Named id) :
    m.core.Named id ∨ ∃ name place, a = .loaded id name place ∧ next = [] := by
  cases e with
  | @loaded n place name =>
    rcases Core.named_enlist.mp h with rfl | h
    · exact .inr ⟨name, place, rfl, rfl⟩
    · exact .inl h
  | _ => exact .inl h

/-! ## What comes next can rely on it -/

theorem of_light {f : List Instr → List Instr} (h : ∀ b ∈ next, b.light = true) :
    Lined (fun later => Instr.Fits c (f later)) next :=
  Lined.of_forall fun b hb _ => Instr.fits_of_light (h b hb) _

theorem fits_finishLoad {id : Nat} (l : Loading) (h : id < c.slots.length) :
    Lined (fun later => Instr.Fits c (later ++ rest)) (Instr.finishLoad id l) := by
  unfold Instr.finishLoad
  cases l.registers <;> simp [Lined, Instr.Fits, h]

theorem loaded_mem_finishLoad (id : Nat) (l : Loading) :
    ∃ name place, .loaded id name place ∈ Instr.finishLoad id l :=
  ⟨l.name, l.place, by simp [Instr.finishLoad]⟩

theorem refill_not_mem_finishLoad {id : Nat} {l : Loading} {q : List Event} :
    .refill id q ∉ Instr.finishLoad id l := by
  unfold Instr.finishLoad
  cases l.registers <;> simp

/-- A load may start its instance once nothing is left to be put into the queue. -/
theorem fits_start {id : Nat} {l : Loading} {before : List Instr}
    (hb : ∀ q, .refill id q ∉ before) (hr : ∀ q, .refill id q ∉ rest) :
    (Instr.start id).Fits c ((before ++ Instr.finishLoad id l) ++ rest) := by
  obtain ⟨name, place, h⟩ := loaded_mem_finishLoad id l
  refine .inr ⟨⟨name, place, by simp [h]⟩, fun q hq => ?_⟩
  simp [hb, hr, refill_not_mem_finishLoad] at hq

theorem lined (e : Effect m a c next) (F : a.Fits m.core rest)
    (pool : m.core.abortsRunning = true → m.core.refusesCancel = false)
    (jobs : ∀ (id : Nat) (s : Slot) (turn : Turn), m.core.slots[id]? = some s →
      s.current = some turn → ∃ j, m.core.job? turn.job = some j)
    (loads : ∀ id, a.key? = some (.opening id) → ∀ q, .refill id q ∉ rest) :
    Lined (fun later => Instr.Fits c (later ++ rest)) next := by
  have G := e.grows F
  cases e with
  | silent _ h => exact of_light h
  | callStart h => exact ⟨.inl h, trivial⟩
  | callReset h => exact ⟨h, trivial, trivial⟩
  | unregister _ h => exact ⟨trivial, of_light h⟩
  | @reset id running =>
    have : m.core.Named id := F
    cases running <;> simp [Instr.resetAll, Instr.revokeGrants, Lined, Instr.Fits, this]
  | @await id ms s turn hs _ hc hcan =>
    refine ⟨fun ha => ?_, trivial⟩
    obtain ⟨j, hj⟩ := jobs id s turn hs hc
    refine G.started turn.job ⟨j, hj, fun hq => ?_⟩
    have : m.canCancel turn.job = true := by
      unfold Machine.canCancel
      rw [show m.job? turn.job = some j from hj]
      simp [hq, show m.refusesCancel = false from pool ha]
    simp [this] at hcan
  | wait => exact Lined.append (of_light Instr.light_nested) ⟨F, trivial⟩
  | overdue => exact ⟨F, trivial⟩
  | check => exact ⟨F, trivial, trivial⟩
  | create => exact ⟨⟨_, Core.slots_create.trans (if_pos rfl), rfl⟩, trivial⟩
  | found => exact ⟨F, trivial⟩
  | @fresh a id l h =>
    have halted : m.core.Halted id := by rcases h with rfl | rfl <;> exact F
    have key : a.key? = some (.opening id) := by rcases h with rfl | rfl <;> rfl
    refine Lined.append ⟨fits_start (fun q hq => ?_) (loads id key), trivial, of_light ?_⟩
      (fits_finishLoad l halted.lt)
    · simp at hq
    · split <;> simp [Instr.light]
  | @restore id l d =>
    have halted : m.core.Halted id := F
    obtain ⟨name, place, hname⟩ := loaded_mem_finishLoad id l
    refine Lined.append (Lined.append (Lined.append (Lined.append
      (Lined.append ⟨trivial, trivial, trivial⟩ (of_light ?_))
      ⟨⟨halted, name, place, by simp [hname]⟩, trivial, trivial⟩) ?_) (of_light ?_))
      (fits_finishLoad l halted.lt)
    · split <;> simp [Instr.light]
    · by_cases hr : d.running = true
      · rw [if_pos hr]
        refine ⟨fits_start (fun q hq => ?_) (loads id rfl), of_light ?_⟩
        · simp at hq
        · split <;> simp [Instr.light]
      · rw [if_neg hr]; trivial
    · split <;> simp [Instr.light]
  | @run turns ran n j hj hq =>
    exact ⟨⟨G.turn n _ _ ⟨j, hj, rfl, rfl⟩, Core.atWork_rephase hj, by simp⟩,
      Core.atWork_rephase hj, trivial, trivial⟩
  | takeSwitch _ _ _ _ h =>
    exact Lined.append (of_light h) ⟨⟨_, G.turn _ _ _ F.1, F.2.2⟩, trivial⟩
  | take hs =>
    refine ⟨Nat.lt_of_lt_of_le (List.getElem?_eq_some_iff.mp hs).1 G.slots,
      ⟨_, G.turn _ _ _ F.1, F.2.2⟩, trivial⟩
  | read => exact ⟨F, trivial⟩
  | lock => exact ⟨trivial, F, trivial⟩
  | _ => trivial

/-! ## Slots and jobs stay in step -/

theorem attended_cons {E : List Instr} {id : Nat} {turn : Turn} (l : List Instr)
    (h : Attended (a :: E) id turn) : Attended (l ++ E) id turn ∨
      a = .takeTurn id turn.ticket turn.job ∨ a = .finishTurn id turn.ticket := by
  rcases h with h | h
  · rcases List.mem_cons.mp h with h | h
    · exact .inr (.inl h.symm)
    · exact .inl (.inl (by simp [h]))
  · rcases List.mem_cons.mp h with h | h
    · exact .inr (.inr h.symm)
    · exact .inl (.inr (by simp [h]))

/-- What is to be shown when a section is done: the turn that it was about, if that is still
outstanding, is attended to. -/
theorem attended_next {E l : List Instr} (B : c.Booked (Attended (a :: E)))
    (h : ∀ id s turn, c.slots[id]? = some s → s.current = some turn →
      a = .takeTurn id turn.ticket turn.job ∨ a = .finishTurn id turn.ticket →
      Attended (l ++ E) id turn) : c.Booked (Attended (l ++ E)) :=
  B.mono fun id s turn hs hc hat => (attended_cons l hat).elim (fun hat => hat) (h id s turn hs hc)

theorem booked {E : List Instr} (e : Effect m a c next) (F : a.Fits m.core rest)
    (B : m.core.Booked (Attended (a :: E)))
    (ending : ∀ id turn, Attended E id turn →
      ∃ n, m.core.IsTurn n id turn.ticket ∧ Key.ending n ∈ keys E)
    (once : ∀ n, a = .jobDone n → Key.ending n ∉ keys E) :
    c.Booked (Attended (next ++ E)) := by
  -- A section that is about no turn leaves everyone who attends to one.
  have other : (∀ id t n, a ≠ .takeTurn id t n) → (∀ id t, a ≠ .finishTurn id t) →
      m.core.Booked (Attended (next ++ E)) := fun h1 h2 =>
    attended_next B fun id s turn _ _ h => by
      rcases h with h | h
      · exact absurd h (h1 _ _ _)
      · exact absurd h (h2 _ _)
  cases e with
  | silent h => exact other (fun _ _ _ h' => by subst h'; cases h) (fun _ _ h' => by subst h'; cases h)
  | absent hsub hno =>
    refine attended_next B fun id s turn hs _ h => ?_
    have absent : a.subject? ≠ some id := fun h' => by
      rw [hsub] at h'; cases h'
      cases (Machine.slots_of_get?_none hno).symm.trans hs
    rcases h with rfl | rfl
    · exact absurd rfl absent
    · exact absurd rfl absent
  | unregister => exact (other (by simp) (by simp)).congr rfl rfl
  | start hs => exact (other (by simp) (by simp)).revise hs Slot.sound_start
  | post hs => exact (other (by simp) (by simp)).revise hs (Slot.sound_post _)
  | clear hs => exact (other (by simp) (by simp)).revise hs Slot.sound_clear
  | @refill id l s hs =>
    obtain ⟨s', hs', hr⟩ := F.1
    obtain rfl : s' = s := by simpa [hs] using hs'.symm
    exact (other (by simp) (by simp)).revise hs (Slot.sound_refill l hr)
  | halt hs => exact (other (by simp) (by simp)).revise hs (Slot.sound_halt _)
  | cancel hs _ hc hcan =>
    obtain ⟨j, hj, -⟩ := Machine.queued_of_canCancel hcan
    exact (other (by simp) (by simp)).cancel hs hc hj
  | await hs => exact (other (by simp) (by simp)).revise hs (Slot.sound_halt _)
  | trip => exact (other (by simp) (by simp)).trip
  | takeBack ha hj hq =>
    obtain ⟨i, hi, hn⟩ := F ha
    simp_all
  | giveUp hs => exact (other (by simp) (by simp)).revise hs (Slot.sound_giveUp _)
  | create => exact (other (by simp) (by simp)).create
  | register => exact (other (by simp) (by simp)).congr rfl rfl
  | loaded => exact (other (by simp) (by simp)).congr rfl rfl
  | @run turns ran n j hj hq =>
    exact (other (by simp) (by simp)).claim hj fun turn hn ht => .inl (by simp [hn, ht])
  | @stale id ticket n s hs ho =>
    refine attended_next B fun id' s' turn hs' hc h => ?_
    rcases h with h | h
    · cases h
      obtain rfl : s' = s := by simpa [hs] using hs'.symm
      rw [Slot.owns_iff.mpr ⟨turn, hc, rfl⟩] at ho
      cases ho
    · cases h
  | @idle id ticket n s hs ho hq =>
    refine attended_next (B.revise hs (Slot.sound_idle hq)) fun id' s' turn hs' hc h => ?_
    rcases h with h | h
    · cases h
      rw [Core.slots_revise hs, if_pos rfl] at hs'
      cases hs'
      cases hc
    · cases h
  | takeSwitch hs ho =>
    refine attended_next (B.revise hs (Slot.sound_take ho)) fun id' s' turn hs' hc h => ?_
    rcases h with h | h
    · cases h; exact .inr (by simp)
    · cases h
  | take hs ho =>
    refine attended_next (B.revise hs (Slot.sound_take ho)) fun id' s' turn hs' hc h => ?_
    rcases h with h | h
    · cases h; exact .inr (by simp)
    · cases h
  | @handOn id ticket s hs =>
    refine attended_next (B.revise hs (Slot.sound_handOn _)) fun id' s' turn hs' hc h => ?_
    rcases h with h | h
    · cases h
    · cases h
      rw [Core.slots_revise hs, if_pos rfl] at hs'
      cases hs'
      exact absurd rfl (Slot.ticket_ne_of_handOn (B.ticket_le hs) hc)
  | @done n =>
    obtain ⟨j, hj, hr⟩ := F
    refine (other (by simp) (by simp)).rephase (Core.job?_pos hj) fun id s turn hs hc he => ?_
    -- Who attends to the turn of this job would end it too.
    obtain ⟨i, hi, ho, ht, hp⟩ := B.outstanding id s turn hs hc
    rw [he, hj] at hi
    cases hi
    rcases hp with hq | ⟨-, hat⟩
    · simp [hr] at hq
    · rcases attended_cons [] hat with hat | h | h
      · obtain ⟨k, ⟨i, hi, ho', ht'⟩, hk⟩ := ending id turn hat
        obtain rfl := B.job_unique hi hj (ho'.trans ho.symm) (ht'.trans ht.symm)
        exact absurd hk (once k rfl)
      · cases h
      · cases h
  | fresh h =>
    rcases h with rfl | rfl
    · exact other (by simp) (by simp)
    · exact other (by simp) (by simp)
  | _ => exact other (by simp) (by simp)

end Effect

/-! ## Every step keeps a system coherent -/

/-- The instance that must not be running yet. -/
def Instr.opens? : Instr → Option Nat
  | .recoverSize id _ | .recoverRead id _ | .refill id _ => some id
  | _ => none

/-- The job that must be at work. -/
def Instr.works? : Instr → Option Nat
  | .takeTurn _ _ n | .jobDone n => some n
  | _ => none

theorem Instr.Fits.step {a b : Instr} {c c' : Core} {later : List Instr} (F : b.Fits c later)
    (G : c.Grows a c') (ends : ∀ n, b.works? = some n → a ≠ .jobDone n)
    (opens : ∀ id, b.opens? = some id → a ≠ .start id) : b.Fits c' later := by
  cases b with
  | start id => exact Or.imp_left (G.named id) F
  | reset id => exact G.named id F
  | stopWait _ _ turn => exact fun h => G.started _ (F (G.aborts ▸ h))
  | stopWaited _ _ turn _ => exact fun h => G.started _ (F (G.aborts ▸ h))
  | stopCheck _ _ turn => exact fun h => G.started _ (F (G.aborts ▸ h))
  | stopAbort _ turn => exact fun h => G.started _ (F (G.aborts ▸ h))
  | recoverSize id l => exact G.halted id (opens id rfl) F
  | recoverRead id l => exact G.halted id (opens id rfl) F
  | refill id l => exact ⟨G.halted id (opens id rfl) F.1, F.2⟩
  | register id => exact Nat.lt_of_lt_of_le F G.slots
  | loaded id name place => exact Nat.lt_of_lt_of_le F G.slots
  | takeTurn id ticket n =>
    exact ⟨G.turn n id ticket F.1, G.atWork n (ends n rfl) F.2.1, F.2.2⟩
  | readDetected v => exact Nat.lt_of_lt_of_le F G.slots
  | lockScript v => exact Nat.lt_of_lt_of_le F G.slots
  | enter v => exact Nat.lt_of_lt_of_le F G.slots
  | finishTurn id ticket =>
    obtain ⟨n, ht, hn⟩ := F
    exact ⟨n, G.turn n id ticket ht, hn⟩
  | jobDone n => exact G.atWork n (ends n rfl) F
  | _ => trivial

namespace System

theorem Coherent.start {m : Machine} (h : m.Fresh) : Coherent ⟨m, []⟩ where
  pool := h.pool
  named id hid := by simp [Core.Named, Machine.core, h.named] at hid
  keys := List.nodup_nil
  agendas _ ht := by cases ht
  booked := by
    have slots : m.core.slots = [] := by simp [Machine.core, Machine.slots, h.instances]
    have jobs : ∀ n, m.core.job? n = none := by simp [Core.job?, Machine.core, h.jobs]
    refine ⟨fun n j hj => ?_, fun n n' j j' _ hj => ?_, fun id s turn hs => ?_, fun id s hs => ?_⟩
    · rw [jobs] at hj; cases hj
    · rw [jobs] at hj; cases hj
    · rw [slots] at hs; cases hs
    · rw [slots] at hs; cases hs

section Move

variable {S T : System} {a b : Instr} {rest later : List Instr} {reply : Reply}
  {others : List Thread}

theorem Joins.identities (J : S.Joins T) :
    T.machine.core.identities = S.machine.core.identities :=
  congrArg (List.map Instance.identity) J.instances

theorem Joins.slots (J : S.Joins T) : T.machine.core.slots = S.machine.core.slots := by
  simp only [Machine.core, Machine.slots, J.instances]

theorem Moves.effect (M : Moves S a rest reply others T) :
    Effect S.machine a T.machine.core (a.exec S.machine reply).next :=
  M.machine ▸ effect_exec S.machine reply a

theorem Moves.leadsTo (_ : Moves S a rest reply others T)
    (hb : b ∈ (a.exec S.machine reply).next) : a.LeadsTo S.machine b :=
  S.machine.leadsTo reply a b hb

theorem Moves.fits (M : Moves S a rest reply others T) (C : S.Coherent) :
    a.Fits S.machine.core rest := (C.agendas _ M.mover).1

theorem Moves.grows (M : Moves S a rest reply others T) (C : S.Coherent) :
    S.machine.core.Grows a T.machine.core := M.effect.grows (M.fits C)

/-- What is pending elsewhere relies on something, also when it is in the same agenda. -/
theorem Moves.fits_elsewhere (M : Moves S a rest reply others T) (C : S.Coherent)
    (h : b ∈ elsewhere rest others) :
    ∃ later, (∀ x ∈ later, x ∈ elsewhere rest others) ∧ b.Fits S.machine.core later := by
  obtain ⟨l, hb, hl, hin⟩ := M.agenda_of_mem h
  have L : Lined (Instr.Fits S.machine.core) l := by
    rcases hin with rfl | ⟨t, ht, rfl⟩
    · exact (C.agendas _ M.mover).2
    · exact C.agendas t ht
  obtain ⟨later, hlater, F⟩ := L.of_mem hb
  exact ⟨later, fun x hx => hl x (hlater x hx), F⟩

/-- A key that is held after a move was held before, or was nobody's. -/
theorem Moves.mem_keys_after (M : Moves S a rest reply others T) {k : Key}
    (h : k ∈ ScriptHost.keys T.pending) :
    k ∈ ScriptHost.keys S.pending ∨ ¬ k.Valid S.machine.core := by
  rcases M.held_after.mp h with h | h
  · rcases M.effect.keys_next with e | e | ⟨-, new⟩
    · rw [← keys, e] at h; cases h
    · rw [← keys, e] at h
      exact .inl (M.held_before.mpr (.inl (by simpa [ScriptHost.keys] using h)))
    · exact .inr (new k h)
  · exact .inl (M.held_before.mpr (.inr h))

theorem Moves.keys_nodup (M : Moves S a rest reply others T) (C : S.Coherent) :
    (ScriptHost.keys T.pending).Nodup := by
  refine M.held_nodup C.keys (M.effect.keys_next.imp_right (.imp_right (.imp_right ?_)))
  intro new k h h'
  obtain ⟨b, hb, hk⟩ := mem_keys.mp h'
  obtain ⟨later, -, F⟩ := M.fits_elsewhere C hb
  exact new k h (F.valid hk)

/-- What is to be done before an instance runs is not overtaken by a start of it. -/
theorem Moves.not_started (M : Moves S a rest reply others T) (C : S.Coherent) {id : Nat}
    (hb : b ∈ elsewhere rest others) (ho : b.opens? = some id) : a ≠ .start id := by
  rintro rfl
  -- Whoever opens the instance has its key, now or later in the agenda.
  have key : ∀ {l later : List Instr}, b ∈ l → (∀ x ∈ later, x ∈ l) →
      b.Fits S.machine.core later → .opening id ∈ ScriptHost.keys l := by
    intro l later hl hlater F
    cases b with
    | recoverSize n q => cases ho; exact mem_keys.mpr ⟨_, hl, rfl⟩
    | recoverRead n q => cases ho; exact mem_keys.mpr ⟨_, hl, rfl⟩
    | refill n q =>
      cases ho
      obtain ⟨-, name, place, hname⟩ := F
      exact mem_keys.mpr ⟨_, hlater _ hname, rfl⟩
    | _ => cases ho
  obtain ⟨later, hlater, F⟩ := M.fits_elsewhere C hb
  rcases M.fits C with hn | ⟨⟨name, place, hload⟩, hfill⟩
  · exact (C.named id hn).2 (M.held_before.mpr (.inr (key hb hlater F)))
  · have nodup : (ScriptHost.keys (elsewhere rest others)).Nodup := M.held_elsewhere C.keys
    rcases List.mem_append.mp hb with hr | hr
    · cases b with
      | recoverSize n q =>
        cases ho; cases eq_of_held nodup hb (List.mem_append_left _ hload) rfl rfl
      | recoverRead n q =>
        cases ho; cases eq_of_held nodup hb (List.mem_append_left _ hload) rfl rfl
      | refill n q => cases ho; exact hfill q hr
      | _ => cases ho
    · obtain ⟨t, ht, hbt⟩ := List.mem_flatMap.mp hr
      obtain ⟨later, hlater, F⟩ := (C.agendas t (M.still t ht)).of_mem hbt
      obtain ⟨b', hb', hk⟩ := mem_keys.mp (key hbt hlater F)
      rw [elsewhere, keys_append, List.nodup_append] at nodup
      exact nodup.2.2 _ (mem_keys.mpr ⟨_, hload, rfl⟩) _
        (mem_keys.mpr ⟨b', List.mem_flatMap.mpr ⟨t, ht, hb'⟩, hk⟩) rfl

/-- Nobody else ends a job. -/
theorem Moves.not_ended (M : Moves S a rest reply others T) (C : S.Coherent) {n : Nat}
    (hb : b ∈ elsewhere rest others) (hn : b.works? = some n) : a ≠ .jobDone n := by
  rintro rfl
  refine M.held_once C.keys rfl (mem_keys.mpr ?_)
  cases b with
  | takeTurn id ticket k =>
    cases hn
    obtain ⟨later, hlater, -, -, hd⟩ := M.fits_elsewhere C hb
    exact ⟨_, hlater _ hd, rfl⟩
  | jobDone k => cases hn; exact ⟨_, hb, rfl⟩
  | _ => cases hn

theorem Moves.fits_after (M : Moves S a rest reply others T) (C : S.Coherent)
    (hb : b ∈ elsewhere rest others) (F : b.Fits S.machine.core later) :
    b.Fits T.machine.core later := by
  exact F.step (M.grows C) (fun n hn => M.not_ended C hb hn) fun id ho => M.not_started C hb ho

theorem Moves.coherent (M : Moves S a rest reply others T) (C : S.Coherent) : T.Coherent where
  pool h := by
    rw [(M.grows C).refuses]
    exact C.pool ((M.grows C).aborts ▸ h)
  named id h := by
    rcases M.effect.named_or h with h | ⟨name, place, rfl, hn⟩
    · obtain ⟨hlt, hno⟩ := C.named id h
      refine ⟨Nat.lt_of_lt_of_le hlt (M.grows C).slots, fun hk => ?_⟩
      rcases M.mem_keys_after hk with hk | hk
      · exact hno hk
      · exact hk hlt
    · refine ⟨Nat.lt_of_lt_of_le (M.fits C) (M.grows C).slots, fun hk => ?_⟩
      rw [ScriptHost.keys, M.held_after, hn] at hk
      exact M.held_once C.keys rfl (hk.resolve_left List.not_mem_nil)
  keys := M.keys_nodup C
  agendas t ht := by
    rcases M.threads t ht with h | h
    · rw [h]
      refine Lined.append (M.effect.lined (M.fits C) C.pool ?_ fun id hk q hq => ?_) ?_
      · intro id s turn hs hc
        obtain ⟨j, hj, -⟩ := C.booked.outstanding id s turn hs hc
        exact ⟨j, hj⟩
      · obtain ⟨later, hlater, F⟩ := (C.agendas _ M.mover).2.of_mem hq
        obtain ⟨-, name, place, hname⟩ := F
        exact M.held_once C.keys hk
          (mem_keys.mpr ⟨_, List.mem_append_left _ (hlater _ hname), rfl⟩)
      · exact (C.agendas _ M.mover).2.imp fun b later hb _ =>
          M.fits_after C (List.mem_append_left _ hb)
    · exact (C.agendas t (M.still t h)).imp fun b later hb _ =>
        M.fits_after C (List.mem_append_right _ (List.mem_flatMap.mpr ⟨t, h, hb⟩))
  booked := by
    have B : S.machine.core.Booked (Attended (a :: elsewhere rest others)) :=
      C.booked.mono fun id s turn _ _ h => h.imp M.before.mem_iff.mp M.before.mem_iff.mp
    refine (M.effect.booked (M.fits C) B ?_ fun n ha => M.held_once C.keys (by rw [ha]; rfl)).mono
      fun id s turn _ _ h => h.imp M.after.mem_iff.mpr M.after.mem_iff.mpr
    rintro id turn (h | h)
    · obtain ⟨later, hlater, ht, -, hd⟩ := M.fits_elsewhere C h
      exact ⟨_, ht, mem_keys.mpr ⟨_, hlater _ hd, rfl⟩⟩
    · obtain ⟨later, hlater, n, ht, hd⟩ := M.fits_elsewhere C h
      exact ⟨n, ht, mem_keys.mpr ⟨_, hlater _ hd, rfl⟩⟩

end Move

/-! ## All reachable systems -/

theorem Coherent.call {m : Machine} {ts : List Thread} (C : Coherent ⟨m, ts⟩) (o : Op) :
    Coherent ⟨m, ts ++ [.ofOp o]⟩ := by
  have e : pending ⟨m, ts ++ [.ofOp o]⟩ = pending ⟨m, ts⟩ ++ [.op o] := pending_append m m ts _
  have k : ScriptHost.keys (pending ⟨m, ts ++ [.ofOp o]⟩) = ScriptHost.keys (pending ⟨m, ts⟩) := by
    rw [e, keys_append]; exact List.append_nil _
  refine ⟨C.pool, ?_, ?_, fun t ht => ?_, C.booked.mono fun id s turn _ _ h => ?_⟩
  · rw [k]; exact C.named
  · rw [k]; exact C.keys
  · rcases List.mem_append.mp ht with ht | ht
    · exact C.agendas t ht
    · obtain rfl := List.mem_singleton.mp ht
      exact ⟨trivial, trivial⟩
  · rw [e]
    exact h.imp (List.mem_append_left _) (List.mem_append_left _)

theorem Coherent.refuse {m : Machine} {ts : List Thread} (C : Coherent ⟨m, ts⟩) (b : Bool)
    (h : m.abortsRunning = false) : Coherent ⟨{ m with refusesCancel := b }, ts⟩ where
  pool ha := by rw [show m.abortsRunning = true from ha] at h; cases h
  named := C.named
  keys := C.keys
  agendas := C.agendas
  booked := C.booked.congr rfl rfl

theorem Coherent.valid {S : System} {k : Key} (C : S.Coherent)
    (h : k ∈ ScriptHost.keys S.pending) : k.Valid S.machine.core := by
  obtain ⟨a, ha, hk⟩ := mem_keys.mp h
  obtain ⟨t, ht, hat⟩ := mem_pending.mp ha
  obtain ⟨later, -, F⟩ := (C.agendas t ht).of_mem hat
  exact F.valid hk

theorem Coherent.claim {m : Machine} {ts : List Thread} {n : Nat} {j : Job}
    (C : Coherent ⟨m, ts⟩) (hj : m.core.job? n = some j) (hq : j.phase = .queued) :
    Coherent ⟨m.setPhase n .running, ts ++ [.ofJob j.owner j.ticket n]⟩ := by
  have e : pending ⟨m.setPhase n .running, ts ++ [.ofJob j.owner j.ticket n]⟩ =
      pending ⟨m, ts⟩ ++ [.takeTurn j.owner j.ticket n, .jobDone n] := pending_append _ m ts _
  have k : ScriptHost.keys (pending ⟨m.setPhase n .running, ts ++ [.ofJob j.owner j.ticket n]⟩) =
      ScriptHost.keys (pending ⟨m, ts⟩) ++ [.taking n, .ending n] := by
    rw [e, keys_append]; rfl
  have idle : ¬ m.core.Started n := Core.not_started hj hq
  have G : m.core.Grows .noteReply (m.core.rephase n .running) := .claim hj hq
  refine ⟨C.pool, fun id hid => ?_, ?_, fun t ht => ?_, ?_⟩
  · obtain ⟨hlt, hno⟩ := C.named id hid
    rw [k]
    exact ⟨hlt, by simpa using hno⟩
  · rw [k, List.nodup_append]
    refine ⟨C.keys, by simp, fun x hx y hy hxy => ?_⟩
    have : x = .taking n ∨ x = .ending n := by simpa [hxy] using hy
    rcases this with rfl | rfl
    · exact idle (C.valid hx)
    · exact idle (C.valid hx)
  · rcases List.mem_append.mp ht with ht | ht
    · exact (C.agendas t ht).imp fun b later _ _ F =>
        F.step G (fun _ _ h => by cases h) (fun _ _ h => by cases h)
    · obtain rfl := List.mem_singleton.mp ht
      exact ⟨⟨G.turn _ _ _ ⟨j, hj, rfl, rfl⟩, Core.atWork_rephase hj, by simp⟩,
        Core.atWork_rephase hj, trivial⟩
  · have B : m.core.Booked
        (Attended (pending ⟨m.setPhase n .running, ts ++ [.ofJob j.owner j.ticket n]⟩)) :=
      C.booked.mono fun id s turn _ _ h => by
        rw [e]
        exact h.imp (List.mem_append_left _) (List.mem_append_left _)
    refine B.claim hj fun turn hn ht => .inl ?_
    rw [e]
    simp [hn, ht]

theorem Coherent.step {S T : System} {l : List Section} (C : S.Coherent) (s : S.Step l T) :
    T.Coherent := by
  revert C
  refine s.cases_on (P := fun S _ T => S.Coherent → T.Coherent) ?_ ?_ ?_ ?_
  · intro m ts o C
    exact C.call o
  · intro m ts n j hj hq C
    exact C.claim hj hq
  · intro m ts b h C
    exact C.refuse b h
  · intro S T a rest reply others M C
    exact M.coherent C

theorem Life.coherent {h : List Section} {S : System} (H : Life h S) : S.Coherent :=
  H.induct (P := fun _ S => S.Coherent) (fun _ hm => Coherent.start hm)
    fun _ _ _ _ _ C s => C.step s

theorem Reachable.coherent {S : System} (R : Reachable S) : S.Coherent := by
  obtain ⟨h, H⟩ := R
  exact H.coherent

/-- What holds of the sections with which threads begin, and of those that a section leads to,
holds of all that agendas ever have. -/
theorem Life.lined {P : List Instr → Instr → Prop} {h : List Section} {S : System} (H : Life h S)
    (begins : ∀ a later, a.begins = true → P later a)
    (next : ∀ (m : Machine) (r : Reply) (a : Instr) (rest : List Instr),
      Lined (fun later => P (later ++ rest)) (a.exec m r).next) :
    ∀ t ∈ S.threads, Lined P t.agenda := by
  refine H.induct_steps (P := fun _ S => ∀ t ∈ S.threads, Lined P t.agenda) ?_ ?_ ?_ ?_ ?_
  · exact fun m _ t ht => (List.not_mem_nil ht).elim
  · intro h m ts o L t ht
    rcases List.mem_append.mp ht with ht | ht
    · exact L t ht
    · obtain rfl := List.mem_singleton.mp ht
      exact ⟨begins _ _ rfl, trivial⟩
  · intro h m ts n j _ _ _ L t ht
    rcases List.mem_append.mp ht with ht | ht
    · exact L t ht
    · obtain rfl := List.mem_singleton.mp ht
      exact ⟨begins _ _ rfl, begins _ _ rfl, trivial⟩
  · exact fun h m ts b L => L
  · intro h S T a rest reply others H M L t ht
    rcases M.threads t ht with h | h
    · exact h ▸ Lined.append (next _ _ a rest) (L _ M.mover).2
    · exact L t (M.still t h)

end System

end ScriptHost
