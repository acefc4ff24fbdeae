import ScriptHost.Proofs.Engine.Booking

/-!
# What agendas rely on

A section is put on an agenda because of the state its thread has seen, and is
done later, in another state. `Instr.Fits c later a` is what `a` still relies on
when it is done, `later` being what its agenda has after it. None of this can
be undone by another thread, except what a load relies on (nobody else starts
its instance) and what a turn relies on (nobody else ends its job); a load and
a turn hold a `Key` for that, and no two sections anywhere have the same one.
-/

namespace ScriptHost

/-- Every section of an agenda has the property, given the sections after it. -/
def Lined (P : List Instr → Instr → Prop) : List Instr → Prop
  | [] => True
  | a :: later => P later a ∧ Lined P later

namespace Lined

variable {P Q : List Instr → Instr → Prop} {l r : List Instr} {a : Instr}

theorem append (hl : Lined (fun later => P (later ++ r)) l) (hr : Lined P r) :
    Lined P (l ++ r) := by
  induction l with
  | nil => exact hr
  | cons a l ih => exact ⟨hl.1, ih hl.2⟩

theorem of_forall (h : ∀ a ∈ l, ∀ later, P later a) : Lined P l := by
  induction l with
  | nil => trivial
  | cons a l ih => exact ⟨h a (by simp) l, ih fun b hb => h b (by simp [hb])⟩

theorem imp (hP : Lined P l)
    (h : ∀ a later, a ∈ l → (∀ x ∈ later, x ∈ l) → P later a → Q later a) : Lined Q l := by
  induction l with
  | nil => trivial
  | cons a l ih =>
    refine ⟨h a l (by simp) (fun x hx => by simp [hx]) hP.1, ih hP.2 fun b later hb hl => ?_⟩
    exact h b later (by simp [hb]) fun x hx => by simp [hl x hx]

theorem of_mem (hP : Lined P l) (ha : a ∈ l) : ∃ later, (∀ x ∈ later, x ∈ l) ∧ P later a := by
  induction l with
  | nil => cases ha
  | cons b l ih =>
    rcases List.mem_cons.mp ha with rfl | ha
    · exact ⟨l, fun x hx => by simp [hx], hP.1⟩
    · obtain ⟨later, hl, h⟩ := ih hP.2 ha
      exact ⟨later, fun x hx => by simp [hl x hx], h⟩

end Lined

/-! ## Keys -/

/-- A load in progress, a job whose turn is still to be taken, and a job at work. -/
inductive Key where
  | opening (id : Nat)
  | taking (job : Nat)
  | ending (job : Nat)

namespace Instr

def key? : Instr → Option Key
  | .recoverSize id _ | .recoverRead id _ | .loaded id _ _ => some (.opening id)
  | .takeTurn _ _ n => some (.taking n)
  | .jobDone n => some (.ending n)
  | _ => none

end Instr

def keys (l : List Instr) : List Key := l.filterMap Instr.key?

theorem mem_keys {l : List Instr} {k : Key} : k ∈ keys l ↔ ∃ a ∈ l, a.key? = some k := by
  simp [keys]

theorem keys_append (l r : List Instr) : keys (l ++ r) = keys l ++ keys r := by simp [keys]

theorem keys_bringsUp {id : Nat} {l : List Instr} (h : ∀ a ∈ l, a.bringsUp id = true) :
    keys l = [] := by
  rw [keys, List.filterMap_eq_nil_iff]
  intro a ha
  have := h a ha
  cases a <;> first | rfl | cases this

theorem keys_of_light {l : List Instr} (h : ∀ a ∈ l, a.light = true) : keys l = [] :=
  keys_bringsUp fun a ha => Instr.bringsUp_of_light 0 (h a ha)

/-! ## Reliance -/

namespace Core

/-- The instance exists and is not running. -/
def Halted (c : Core) (id : Nat) : Prop := ∃ s, c.slots[id]? = some s ∧ s.running = false

theorem Halted.lt {c : Core} {id : Nat} (h : c.Halted id) : id < c.slots.length := by
  obtain ⟨s, hs, -⟩ := h
  exact (List.getElem?_eq_some_iff.mp hs).1

/-- The job is this turn of this instance. -/
def IsTurn (c : Core) (n id ticket : Nat) : Prop :=
  ∃ j, c.job? n = some j ∧ j.owner = id ∧ j.ticket = ticket

def AtWork (c : Core) (n : Nat) : Prop := ∃ j, c.job? n = some j ∧ j.phase = .running

theorem atWork_rephase {c : Core} {n : Nat} {j : Job} (h : c.job? n = some j) :
    (c.rephase n .running).AtWork n := by
  refine ⟨_, by rw [job?_rephase (job?_pos h), h]; rfl, ?_⟩
  simp

def Started (c : Core) (n : Nat) : Prop := ∃ j, c.job? n = some j ∧ j.phase ≠ .queued

theorem AtWork.started {c : Core} {n : Nat} (h : c.AtWork n) : c.Started n := by
  obtain ⟨j, hj, hr⟩ := h
  exact ⟨j, hj, by simp [hr]⟩

theorem not_started {c : Core} {n : Nat} {j : Job} (h : c.job? n = some j)
    (hq : j.phase = .queued) : ¬ c.Started n := by
  rintro ⟨i, hi, hn⟩
  simp_all

end Core

def Instr.Fits (c : Core) (later : List Instr) : Instr → Prop
  | .start id =>
    c.Named id ∨ (∃ name place, .loaded id name place ∈ later) ∧ ∀ l, .refill id l ∉ later
  | .reset id => c.Named id
  | .stopWait _ _ turn | .stopWaited _ _ turn _ | .stopCheck _ _ turn | .stopAbort _ turn =>
    c.abortsRunning = true → c.Started turn.job
  | .recoverSize id _ | .recoverRead id _ => c.Halted id
  | .refill id _ => c.Halted id ∧ ∃ name place, .loaded id name place ∈ later
  | .register id | .loaded id _ _ => id < c.slots.length
  | .takeTurn id ticket n => c.IsTurn n id ticket ∧ c.AtWork n ∧ .jobDone n ∈ later
  | .readDetected v | .lockScript v | .enter v => v.id < c.slots.length
  | .finishTurn id ticket => ∃ n, c.IsTurn n id ticket ∧ .jobDone n ∈ later
  | .jobDone n => c.AtWork n
  | _ => True

theorem Instr.fits_of_light {c : Core} {a : Instr} (h : a.light = true) (later : List Instr) :
    a.Fits c later := by
  cases a <;> trivial

/-! ## What a section may change -/

/-- What holds of all that a section does: instances and names stay, jobs keep their owner and
ticket and do not go back; only its own section ends a job, and starts an instance; a turn that
becomes the outstanding one has a new ticket. -/
structure Core.Grows (a : Instr) (c c' : Core) : Prop where
  slots : c.slots.length ≤ c'.slots.length
  named : ∀ id, c.Named id → c'.Named id
  aborts : c'.abortsRunning = c.abortsRunning
  refuses : c'.refusesCancel = c.refusesCancel
  turn : ∀ n id ticket, c.IsTurn n id ticket → c'.IsTurn n id ticket
  started : ∀ n, c.Started n → c'.Started n
  atWork : ∀ n, a ≠ .jobDone n → c.AtWork n → c'.AtWork n
  halted : ∀ id, a ≠ .start id → c.Halted id → c'.Halted id
  turns : ∀ (id : Nat) (s : Slot), c.slots[id]? = some s → ∃ s', c'.slots[id]? = some s' ∧
    s.lastTicket ≤ s'.lastTicket ∧ ∀ turn, s'.current = some turn →
      s.current = some turn ∨ s.lastTicket < turn.ticket

namespace Core.Grows

variable {a : Instr} {c c' : Core} {id n : Nat}

theorem of_eq (hs : c'.slots = c.slots) (hj : c'.jobs = c.jobs)
    (hn : ∀ id, c.Named id → c'.Named id) (ha : c'.abortsRunning = c.abortsRunning)
    (hr : c'.refusesCancel = c.refusesCancel) : c.Grows a c' where
  slots := Nat.le_of_eq (by rw [hs])
  named := hn
  aborts := ha
  refuses := hr
  turn n id ticket := by simp [IsTurn, job?, hj]
  started n := by simp [Started, job?, hj]
  atWork n _ := by simp [AtWork, job?, hj]
  halted id _ := by simp [Halted, hs]
  turns id s h := ⟨s, hs ▸ h, Nat.le_refl _, fun _ hc => .inl hc⟩

theorem refl : c.Grows a c := of_eq rfl rfl (fun _ h => h) rfl rfl

theorem trans {d : Core} (h : c.Grows a c') (h' : c'.Grows a d) : c.Grows a d where
  slots := Nat.le_trans h.slots h'.slots
  named id hn := h'.named id (h.named id hn)
  aborts := h'.aborts.trans h.aborts
  refuses := h'.refuses.trans h.refuses
  turn n id ticket ht := h'.turn n id ticket (h.turn n id ticket ht)
  started n hs := h'.started n (h.started n hs)
  atWork n ha hw := h'.atWork n ha (h.atWork n ha hw)
  halted id ha hh := h'.halted id ha (h.halted id ha hh)
  turns id s hs := by
    obtain ⟨s1, hs1, hle1, h1⟩ := h.turns id s hs
    obtain ⟨s2, hs2, hle2, h2⟩ := h'.turns id s1 hs1
    refine ⟨s2, hs2, Nat.le_trans hle1 hle2, fun turn hc => ?_⟩
    rcases h2 turn hc with hc | hlt
    · exact h1 turn hc
    · exact .inr (Nat.lt_of_le_of_lt hle1 hlt)

theorem revise {s : Slot} {r : Revision} (hs : c.slots[id]? = some s) (sound : s.Sound r)
    (hr : a ≠ .start id → s.running = false → r.slot.running = false) :
    c.Grows a (c.revise id r) where
  slots := by simp [Core.revise]
  named _ h := h
  aborts := rfl
  refuses := rfl
  turn n _ _ := fun ⟨j, hj, h⟩ => ⟨j, job?_revise_of_some hj, h⟩
  started n := fun ⟨j, hj, h⟩ => ⟨j, job?_revise_of_some hj, h⟩
  atWork n _ := fun ⟨j, hj, h⟩ => ⟨j, job?_revise_of_some hj, h⟩
  halted k ha := by
    rintro ⟨s', hk, hrun⟩
    by_cases he : k = id
    · subst he
      obtain rfl : s' = s := by simpa [hs] using hk.symm
      refine ⟨_, (slots_revise hs).trans (if_pos rfl), ?_⟩
      have := hr ha hrun
      split
      · exact this
      · exact this
    · exact ⟨s', (slots_revise hs).trans ((if_neg he).trans hk), hrun⟩
  turns k s' hk := by
    by_cases he : k = id
    · subst he
      obtain rfl : s' = s := by simpa [hs] using hk.symm
      refine ⟨_, (slots_revise hs).trans (if_pos rfl), ?_⟩
      have hl := sound.lastTicket
      split
      · refine ⟨by simp only [Slot.ask]; omega, fun turn hc => .inr ?_⟩
        cases hc
        simp only; omega
      · refine ⟨Nat.le_of_eq hl.symm, fun turn hc => .inl ?_⟩
        rcases sound.current with h | h
        · rwa [← h]
        · rw [h] at hc; cases hc
    · exact ⟨s', (slots_revise hs).trans ((if_neg he).trans hk), Nat.le_refl _,
        fun _ hc => .inl hc⟩

theorem rephase {p : Phase} (hn : 0 < n) (hp : p ≠ .queued)
    (hw : c.AtWork n → a = .jobDone n) : c.Grows a (c.rephase n p) where
  slots := Nat.le_refl _
  named _ h := h
  aborts := rfl
  refuses := rfl
  turn k id ticket := by
    rintro ⟨j, hj, ho, ht⟩
    refine ⟨_, by rw [job?_rephase hn, hj]; rfl, ?_⟩
    split <;> exact ⟨ho, ht⟩
  started k := by
    rintro ⟨j, hj, h⟩
    refine ⟨_, by rw [job?_rephase hn, hj]; rfl, ?_⟩
    split
    · exact hp
    · exact h
  atWork k ha := by
    rintro ⟨j, hj, h⟩
    refine ⟨_, by rw [job?_rephase hn, hj]; rfl, ?_⟩
    split
    · next he => subst he; exact absurd (hw ⟨j, hj, h⟩) ha
    · exact h
  halted _ _ h := h
  turns _ s hs := ⟨s, hs, Nat.le_refl _, fun _ hc => .inl hc⟩

/-- A job that has not started is given to a worker. -/
theorem claim {j : Job} (hj : c.job? n = some j) (hq : j.phase = .queued) :
    c.Grows a (c.rephase n .running) :=
  rephase (job?_pos hj) (by simp) fun h => absurd h.started (not_started hj hq)

theorem trip : c.Grows a (c.trip n) where
  slots := Nat.le_refl _
  named _ h := h
  aborts := rfl
  refuses := rfl
  turn k id ticket := by
    rintro ⟨j, hj, ho, ht⟩
    refine ⟨_, by rw [job?_trip, hj]; rfl, ?_⟩
    split <;> exact ⟨ho, ht⟩
  started k := by
    rintro ⟨j, hj, h⟩
    refine ⟨_, by rw [job?_trip, hj]; rfl, ?_⟩
    split <;> exact h
  atWork k _ := by
    rintro ⟨j, hj, h⟩
    refine ⟨_, by rw [job?_trip, hj]; rfl, ?_⟩
    split <;> exact h
  halted _ _ h := h
  turns _ s hs := ⟨s, hs, Nat.le_refl _, fun _ hc => .inl hc⟩

theorem create {l : Loading} : c.Grows a (c.create l) where
  slots := by simp [Core.create]
  named _ h := h
  aborts := rfl
  refuses := rfl
  turn _ _ _ h := h
  started _ h := h
  atWork _ _ h := h
  halted id _ := by
    rintro ⟨s, hs, hr⟩
    have := (List.getElem?_eq_some_iff.mp hs).1
    exact ⟨s, by rw [slots_create, if_neg (by omega), hs], hr⟩
  turns id s hs := by
    have := (List.getElem?_eq_some_iff.mp hs).1
    exact ⟨s, by rw [slots_create, if_neg (by omega), hs], Nat.le_refl _, fun _ hc => .inl hc⟩

end Core.Grows

theorem Machine.queued_of_canCancel {m : Machine} {n : Nat} (h : m.canCancel n = true) :
    ∃ j, m.core.job? n = some j ∧ j.phase = .queued := by
  unfold canCancel at h
  split at h
  · next j hj => exact ⟨j, hj, by simp_all⟩
  · cases h

theorem Effect.grows {m : Machine} {a : Instr} {c : Core} {next later : List Instr}
    (e : Effect m a c next) (F : a.Fits m.core later) : m.core.Grows a c := by
  cases e with
  | unregister => exact .of_eq rfl rfl (fun _ h => h) rfl rfl
  | start hs => exact .revise hs Slot.sound_start fun ha => absurd rfl ha
  | post hs => exact .revise hs (Slot.sound_post _) fun _ h => Slot.running_post.trans h
  | clear hs => exact .revise hs Slot.sound_clear fun _ h => h
  | @refill id l s hs =>
    obtain ⟨s', hs', hr⟩ := F.1
    obtain rfl : s' = s := by simpa [hs] using hs'.symm
    exact .revise hs (Slot.sound_refill l hr) fun _ h => h
  | halt hs => exact .revise hs (Slot.sound_halt _) fun _ _ => rfl
  | cancel hs _ _ hj =>
    obtain ⟨j, hj, hq⟩ := Machine.queued_of_canCancel hj
    exact .trans
      (.rephase (Core.job?_pos hj) (by simp) fun h => absurd h.started (Core.not_started hj hq))
      (.revise hs (Slot.sound_halt _) fun _ _ => rfl)
  | await hs => exact .revise hs (Slot.sound_halt _) fun _ _ => rfl
  | trip => exact .trip
  | takeBack _ hj hq =>
    exact .rephase (Core.job?_pos hj) (by simp) fun h => absurd h.started (Core.not_started hj hq)
  | giveUp hs => exact .revise hs (Slot.sound_giveUp _) fun _ h => Slot.running_giveUp.trans h
  | create => exact .create
  | register => exact .of_eq rfl rfl (fun _ h => h) rfl rfl
  | loaded => exact .of_eq rfl rfl (fun _ h => Core.named_enlist.mpr (.inr h)) rfl rfl
  | run hj hq => exact .claim hj hq
  | idle hs _ hq => exact .revise hs (Slot.sound_idle hq) fun _ h => h
  | takeSwitch hs ho => exact .revise hs (Slot.sound_take ho) fun _ h => h
  | take hs ho => exact .revise hs (Slot.sound_take ho) fun _ h => h
  | handOn hs => exact .revise hs (Slot.sound_handOn _) fun _ h => Slot.running_handOn.trans h
  | done =>
    obtain ⟨j, hj, -⟩ := F
    exact .rephase (Core.job?_pos hj) (by simp) fun _ => rfl
  | _ => exact .refl

end ScriptHost
