import ScriptHost.Proofs.Engine.Dispatch
import ScriptHost.Proofs.Engine.Locking

/-!
# Turns at work

The sections of a turn come one from another, from the taking of its event to
the record of its outcome, and from nowhere else. A turn is taken and finished
by one thread only, after everything else that belongs to it; and while it is
the outstanding one, what others see of the executing event is its own event
(`System.Turning`).
-/

namespace ScriptHost

/-! ## The sections of a turn -/

/-- The same turn, with the same event. -/
structure Invocation.Same (v w : Invocation) : Prop where
  id : v.id = w.id
  ticket : v.ticket = w.ticket
  event : v.event = w.event

theorem Invocation.Same.refl (v : Invocation) : v.Same v := ⟨rfl, rfl, rfl⟩

theorem Invocation.Same.symm {v w : Invocation} (h : v.Same w) : w.Same v :=
  ⟨h.id.symm, h.ticket.symm, h.event.symm⟩

theorem Invocation.Same.trans {u v w : Invocation} (h : u.Same v) (h' : v.Same w) : u.Same w :=
  ⟨h.id.trans h'.id, h.ticket.trans h'.ticket, h.event.trans h'.event⟩

namespace Instr

/-- The turn that a section names. -/
def serves? : Instr → Option Invocation
  | .readDetected v | .lockScript v | .enter v | .act v _ | .applyRequests v _ | .conclude v _
  | .showFault v _ | .record v _ => some v
  | _ => none

/-- What a turn has still to do for itself once it has taken its event. -/
def belongs (v : Invocation) : Instr → Prop
  | .readDetected w | .lockScript w | .enter w | .act w _ | .applyRequests w _ | .conclude w _
  | .showFault w _ | .record w _ => w.Same v
  | .settle id | .unlock id | .selfDelete id => id = v.id
  | .parked _ _ _ | .deleted _ | .delivered _ _ => True
  | _ => False

/-- What a turn does to its instance for the script: a switch of the named state, and what its
handler has asked for. -/
def carriesOut (id : Nat) : Instr → Bool
  | .post k _ | .removeState k | .edit k _ | .clearPermissions k | .removePlugins k
  | .replaceState k _ | .publishMask k | .letGo k _ | .stateEntryUnlessCurrent k => k == id
  | .count _ => true
  | _ => false

/-- The turn that a section takes or finishes. -/
def turn? : Instr → Option (Nat × Nat)
  | .takeTurn id ticket _ | .finishTurn id ticket => some (id, ticket)
  | _ => none

variable {a : Instr} {id : Nat}

theorem serves?_of_apart (h : a.apart = true) : a.serves? = none := by
  cases a <;> first | rfl | cases h

theorem not_begins_of_serves {v : Invocation} (h : a.serves? = some v) : a.begins = false := by
  cases a <;> first | rfl | cases h

theorem turn?_of_light (h : a.light = true) : a.turn? = none := by
  cases a <;> first | rfl | cases h

theorem carriesOut_request {q : Request} : ∀ b ∈ request id q, b.carriesOut id = true := by
  cases q <;> simp [request, setState, apiReset, revokeGrants, carriesOut]

end Instr

namespace Machine

variable {a : Instr} {v : Invocation}

/-- How a turn goes on: operations called by its handler or by a hook, then what the handler has
asked for, if the turn is still the outstanding one, then sections of the turn. -/
def GoesOn (m : Machine) (v : Invocation) (next : List Instr) : Prop :=
  ∃ ops asked own, next = Instr.nested ops ++ asked ++ own ∧
    (∀ b ∈ asked, b.carriesOut v.id = true) ∧ (∀ b ∈ own, b.belongs v) ∧
    (asked ≠ [] → ∃ i, m.get? v.id = some i ∧ i.owns v.ticket = true)

theorem GoesOn.own {m : Machine} {l : List Instr} (ops : List Op) (h : ∀ b ∈ l, b.belongs v) :
    m.GoesOn v (Instr.nested ops ++ l) :=
  ⟨ops, [], l, by rw [List.append_nil], List.forall_mem_nil _, h, fun h => absurd rfl h⟩

theorem GoesOn.leads {m : Machine} {r : Reply} {k : Nat} {f : Instance → Machine × List Instr}
    (h : ∀ i, m.get? k = some i → m.GoesOn v (f i).2) :
    m.GoesOn v (Instr.leads m r k f).next := by
  unfold Instr.leads
  split
  · next i hi => exact h i hi
  · exact own [] (List.forall_mem_nil _)

open GoesOn in
theorem next_of_belongs (m : Machine) (r : Reply) (h : a.belongs v) :
    m.GoesOn v (a.exec m r).next := by
  cases a with
  | readDetected w =>
    exact leads fun i _ => own [] (by simpa [Instr.belongs] using ⟨h.id, h.ticket, h.event⟩)
  | lockScript w => exact own [] (by simpa [Instr.belongs] using ⟨h.id, h⟩)
  | enter w =>
    refine leads fun i _ => ?_
    have acts : ∀ l, ∀ b ∈ [Instr.act { w with state := i.state } l], b.belongs v := fun l => by
      simpa [Instr.belongs] using ⟨h.id, h.ticket, h.event⟩
    simp only [enter]
    split <;> exact own [] (acts _)
  | act w l =>
    refine leads fun i _ => ?_
    have acts : ∀ l, ∀ b ∈ [Instr.act w l], b.belongs v := fun l => by
      simpa [Instr.belongs] using h
    have leaves : ∀ o, ∀ b ∈ leave w o, b.belongs v := fun o b hb => by
      simp only [leave, List.mem_cons, List.not_mem_nil, or_false] at hb
      rcases hb with rfl | rfl | rfl
      · exact h.id
      · exact h.id
      · exact h
    cases l with
    | nil => exact own [] (leaves _)
    | cons x l =>
      cases x with
      | takeArgument name => simp only [act]; split <;> exact own [] (acts _)
      | request q =>
        exact own [] (by simpa [act, Instr.belongs] using ⟨h.id, h.ticket, h.event⟩)
      | perform ops => exact own ops (acts _)
      | cancelIfInterrupted =>
        simp only [act]
        split
        · exact own [] (leaves _)
        · exact own [] (acts _)
      | park b => exact own [] (by simpa [act, Instr.belongs] using h)
      | finish o => exact own [] (leaves _)
      | _ => exact own [] (acts _)
  | applyRequests w o =>
    refine leads fun i hi => ?_
    have concludes : ∀ b ∈ [Instr.conclude w o], b.belongs v := by simpa [Instr.belongs] using h
    by_cases ho : i.owns w.ticket = true
    · refine ⟨[], w.requests.flatMap (Instr.request w.id), _, by rw [if_pos ho]; rfl, ?_, concludes,
        fun _ => ⟨i, h.id ▸ hi, h.ticket ▸ ho⟩⟩
      simp only [List.mem_flatMap]
      rintro b ⟨q, -, hb⟩
      exact h.id ▸ Instr.carriesOut_request b hb
    · rw [if_neg ho]
      exact own [] concludes
  | conclude w o =>
    have records : (Instr.record w o).belongs v := h
    simp only [Instr.exec]
    cases o with
    | selfDelete => exact own [] (by simpa [conclude] using ⟨h.id, records⟩)
    | fault f => exact own [] (by simpa [conclude] using ⟨h, records⟩)
    | _ => exact own [] (by simpa [conclude] using records)
  | selfDelete id =>
    refine leads fun i _ => ?_
    have deletes : ∀ e, ∀ b ∈ [Instr.deleted e], b.belongs v := fun e => by
      simp [Instr.belongs]
    simp only [selfDelete, takeDeleteHook]
    split
    · exact own [] (by simp)
    · split
      · exact own [] (deletes _)
      · exact own _ (deletes _)
  | showFault w f =>
    refine leads fun i _ => ?_
    have delivers : ∀ t e, ∀ b ∈ [Instr.delivered t e], b.belongs v := fun t e => by
      simp [Instr.belongs]
    simp only [showFault, takeMessageHook]
    split
    · exact own [] (by simp)
    · split
      · exact own [] (delivers _ _)
      · exact own _ (delivers _ _)
  | record w o =>
    refine own [] ?_
    simp only [Instr.exec, Instr.about]
    split <;> simp [Instr.plain]
  | settle | unlock | parked | deleted | delivered => exact own [] (List.forall_mem_nil _)
  | _ => exact h.elim

/-- What a turn carries out for the script leads to nothing else. -/
theorem next_carriesOut {id : Nat} (m : Machine) (r : Reply) (h : a.carriesOut id = true) :
    ∀ b ∈ (a.exec m r).next, b.carriesOut id = true := by
  intro b hb
  cases m.leadsTo r a b hb with
  | edited | published | stateEntry => exact h
  | _ => cases h

/-- What the taking of a turn leads to: nothing, or a switch of the named state, or the event's
way to its handler; the turn is finished in any case. -/
theorem next_takeTurn (m : Machine) (r : Reply) (id ticket n : Nat) :
    ((Instr.takeTurn id ticket n).exec m r).next = [] ∨
      ∃ i e rest, m.get? id = some i ∧ i.owns ticket = true ∧
        i.slot.queue.pop? = some (e, rest) ∧
        (e.isSetState = true ∧ (∃ asked, (∀ b ∈ asked, b.carriesOut id = true) ∧
            ((Instr.takeTurn id ticket n).exec m r).next = asked ++ [.finishTurn id ticket]) ∨
          e.isSetState = false ∧ ((Instr.takeTurn id ticket n).exec m r).next =
            [.readDetected ⟨id, ticket, n, e, "", [], []⟩, .finishTurn id ticket]) := by
  simp only [Instr.exec, Instr.leads]
  split
  · next i hi =>
    unfold takeTurn
    by_cases ho : i.owns ticket = true
    · rw [if_pos ho]
      cases hp : i.slot.queue.pop? with
      | none => exact .inl rfl
      | some p =>
        obtain ⟨e, rest⟩ := p
        refine .inr ⟨i, e, rest, hi, ho, hp, ?_⟩
        simp only
        cases hset : e.isSetState with
        | true =>
          refine .inl ⟨rfl, (switchState _ id e).2, ?_, rfl⟩
          unfold switchState
          split <;> simp [Instr.carriesOut]
        | false => exact .inr ⟨rfl, rfl⟩
    · rw [if_neg ho]
      exact .inl rfl
  · exact .inl rfl

/-- A section of a turn comes from another section of the turn, or from the taking of its event. -/
theorem serves_next (m : Machine) (r : Reply) {b : Instr} (hb : b ∈ (a.exec m r).next)
    (hv : b.serves? = some v) : (∃ w, a.serves? = some w ∧ w.Same v) ∨
      ∃ n i rest, a = .takeTurn v.id v.ticket n ∧ m.get? v.id = some i ∧
        i.owns v.ticket = true ∧ i.slot.queue.pop? = some (v.event, rest) ∧
        v.event.isSetState = false ∧
        (a.exec m r).next = [.readDetected v, .finishTurn v.id v.ticket] := by
  have other : b.apart = true → False := fun h => by
    cases (Instr.serves?_of_apart h).symm.trans hv
  have from_a := m.leadsTo r a b hb
  by_cases on : a.leadsOn = false
  · exact (other (from_a.apart on)).elim
  · cases from_a with
    | @take id ticket n e =>
      right
      cases hv
      rcases next_takeTurn m r id ticket n with
        hn | ⟨i, e', rest, hi, ho, hp, ⟨-, asked, hasked, hn⟩ | ⟨hset, hn⟩⟩
      · rw [hn] at hb
        cases hb
      · rw [hn] at hb
        rcases List.mem_append.mp hb with hb | hb
        · cases hasked _ hb
        · cases List.mem_singleton.mp hb
      · obtain rfl : e = e' := by simpa [hn] using hb
        exact ⟨n, i, rest, rfl, hi, ho, hp, hset, hn⟩
    | read | enter | begin | act | leave | conclude | showFault | record =>
      cases hv
      exact .inl ⟨_, rfl, rfl, rfl, rfl⟩
    | call h | deleteHook h | messageHook h => exact (other (Instr.apart_nested b h)).elim
    | request h => exact (other (Instr.apart_request b h)).elim
    | _ => first | cases hv | exact absurd rfl on

end Machine

/-! ## What others see of the executing event -/

/-- A section leaves what is shown of the executing event, unless it takes, finishes or gives up
the turn that is outstanding. -/
theorem Instr.snapshot_alter (a : Instr) (id : Nat) (i : Instance) :
    ((a.alter id i).currentEvent = i.currentEvent ∧ (a.alter id i).detected = i.detected) ∨
      ∃ ticket, i.owns ticket = true ∧ ((∃ n, a = .takeTurn id ticket n) ∨
        a.Ends id ticket) := by
  unfold alter
  split
  · next k g h =>
    split
    · next hk =>
      subst hk
      cases a with
      | takeTurn id ticket n =>
        cases h
        by_cases ho : i.owns ticket = true
        · exact .inr ⟨ticket, ho, .inl ⟨n, rfl⟩⟩
        · simp [ho]
      | finishTurn id ticket =>
        cases h
        by_cases ho : i.owns ticket = true
        · exact .inr ⟨ticket, ho, .inr (.inl rfl)⟩
        · simp [ho]
      | stopEnd id turn =>
        cases h
        by_cases ho : i.owns turn.ticket = true
        · exact .inr ⟨turn.ticket, ho, .inr (.inr ⟨turn, rfl, rfl⟩)⟩
        · simp [ho]
      | edit id e => cases h; left; simp only [Instance.edit]; split <;> exact ⟨rfl, rfl⟩
      | enter v => cases h; left; simp only; split <;> exact ⟨rfl, rfl⟩
      | act v l =>
        cases l with
        | nil => cases h
        | cons x l => cases h; exact .inl ⟨rfl, rfl⟩
      | replaceState | publishMask | letGo | lockScript | settle | unlock | selfDelete =>
        cases h
        exact .inl ⟨rfl, rfl⟩
      | _ => cases h
    · exact .inl ⟨rfl, rfl⟩
  · exact .inl ⟨rfl, rfl⟩

theorem Slot.owns_unique {s : Slot} {t u : Nat} (ht : s.owns t = true) (hu : s.owns u = true) :
    t = u := by
  obtain ⟨turn, hc, rfl⟩ := owns_iff.mp ht
  obtain ⟨turn', hc', rfl⟩ := owns_iff.mp hu
  rw [Option.some.inj (hc.symm.trans hc')]

/-! ## One thread for each turn -/

/-- Whoever is at a turn finishes it later. -/
def Instr.Finishes (later : List Instr) (a : Instr) : Prop :=
  ∀ v, a.serves? = some v → .finishTurn v.id v.ticket ∈ later

/-- A section hands on the turn that it holds, or begins a job that has not started. -/
theorem Effect.turns_next {m : Machine} {a : Instr} {c : Core} {next : List Instr}
    (e : Effect m a c next) : next.filterMap Instr.turn? = [] ∨
      next.filterMap Instr.turn? = [a].filterMap Instr.turn? ∨
      ∃ n j turns ran, m.core.job? n = some j ∧ j.phase = .queued ∧ c = m.core.rephase n .running ∧
        next = [.takeTurn j.owner j.ticket n, .jobDone n, .run turns ran] := by
  have up : ∀ {id : Nat} {l : List Instr}, (∀ b ∈ l, b.bringsUp id = true) →
      l.filterMap Instr.turn? = [] := fun h => List.filterMap_eq_nil_iff.mpr fun b hb => by
    have := h b hb
    cases b <;> first | rfl | cases this
  have noTurns : ∀ {l : List Instr}, (∀ b ∈ l, b.light = true) → l.filterMap Instr.turn? = [] :=
    fun h => List.filterMap_eq_nil_iff.mpr fun b hb => Instr.turn?_of_light (h b hb)
  have finish : ∀ {id : Nat} {l : Loading}, (Instr.finishLoad id l).filterMap Instr.turn? = [] :=
    fun {id l} => by unfold Instr.finishLoad; cases l.registers <;> rfl
  cases e with
  | silent _ h => exact .inl (noTurns h)
  | unregister _ h => exact .inl (noTurns (by simpa [Instr.light] using h))
  | @reset id running => left; cases running <;> rfl
  | wait => left; rw [List.filterMap_append, noTurns Instr.light_nested]; rfl
  | fresh => left; rw [List.filterMap_append, up Instr.bringsUp_freshStart, finish]; rfl
  | restore => left; rw [List.filterMap_append, up Instr.bringsUp_restore, finish]; rfl
  | @run turns ran n j hj hq => exact .inr (.inr ⟨n, j, turns, ran + 1, hj, hq, rfl, rfl⟩)
  | takeSwitch _ _ _ _ h => right; left; rw [List.filterMap_append, noTurns h]; rfl
  | take => exact .inr (.inl rfl)
  | _ => exact .inl rfl

/-- A turn that is outstanding stays so, unless it is taken in vain, finished, given up or taken
back. -/
theorem Effect.owns {m : Machine} {a : Instr} {c : Core} {next : List Instr} {id ticket : Nat}
    {s s' : Slot} (e : Effect m a c next) (hs : m.core.slots[id]? = some s)
    (hs' : c.slots[id]? = some s') (ho : s.owns ticket = true) : s'.owns ticket = true ∨
      (∃ n, a = .takeTurn id ticket n) ∨ a.Ends id ticket ∨
      ∃ ms turn, a = .stop id ms ∧ s.current = some turn ∧ m.canCancel turn.job = true := by
  have same : c.slots = m.core.slots → s'.owns ticket = true := fun h => by
    rw [h, hs] at hs'
    cases hs'
    exact ho
  have other : ∀ {k : Nat} {s₀ : Slot} {r : Revision}, m.core.slots[k]? = some s₀ →
      c.slots = (m.core.revise k r).slots → k = id ∧ s₀ = s ∨ s'.owns ticket = true := by
    intro k s₀ r hk hc
    rw [hc, Core.slots_revise hk] at hs'
    split at hs'
    · next he => subst he; exact .inl ⟨rfl, Option.some.inj (hk.symm.trans hs)⟩
    · rw [hs] at hs'; cases hs'; exact .inr ho
  have kept : ∀ {k : Nat} {s₀ : Slot} {r : Revision}, m.core.slots[k]? = some s₀ →
      c.slots = (m.core.revise k r).slots → r.slot.current = s₀.current →
      (r.asks = true → s₀.current = none) → s'.owns ticket = true := by
    intro k s₀ r hk hc hcur hasks
    rcases other hk hc with ⟨rfl, rfl⟩ | h
    · obtain ⟨turn, ht, rfl⟩ := Slot.owns_iff.mp ho
      rw [hc, Core.slots_revise hk, if_pos rfl] at hs'
      cases hs'
      have : r.asks = false := Bool.eq_false_iff.mpr fun ha => by cases (hasks ha).symm.trans ht
      rw [this]
      exact Slot.owns_iff.mpr ⟨turn, hcur.trans ht, rfl⟩
    · exact h
  have ended : ∀ {k u : Nat} {s₀ : Slot} {r : Revision}, m.core.slots[k]? = some s₀ →
      c.slots = (m.core.revise k r).slots → (s₀.owns u = false → r = ⟨s₀, false⟩) →
      s'.owns ticket = true ∨ k = id ∧ u = ticket := by
    intro k u s₀ r hk hc hno
    rcases other hk hc with ⟨rfl, rfl⟩ | h
    · by_cases hu : s₀.owns u = true
      · exact .inr ⟨rfl, Slot.owns_unique hu ho⟩
      · have := hno (Bool.eq_false_iff.mpr hu)
        subst this
        exact .inl (kept hk hc rfl nofun)
    · exact .inl h
  cases e with
  | start hk =>
    refine .inl (kept hk rfl ?_ fun h => (Slot.asks_start h).2)
    unfold Slot.start; split <;> rfl
  | post hk =>
    refine .inl (kept hk rfl ?_ fun h => (Slot.asks_post h).2)
    unfold Slot.post; split <;> rfl
  | clear hk => exact .inl (kept hk rfl rfl nofun)
  | refill hk => exact .inl (kept hk rfl rfl nofun)
  | halt hk => exact .inl (kept hk rfl rfl nofun)
  | await hk => exact .inl (kept hk rfl rfl nofun)
  | takeSwitch hk => exact .inl (kept hk rfl rfl nofun)
  | take hk => exact .inl (kept hk rfl rfl nofun)
  | @cancel k ms s₀ turn hk _ hc hcan =>
    rcases other (r := ⟨s₀.halt true, false⟩) hk rfl with ⟨rfl, rfl⟩ | h
    · exact .inr (.inr (.inr ⟨ms, turn, rfl, hc, hcan⟩))
    · exact .inl h
  | @giveUp k turn s₀ hk =>
    rcases ended (u := turn.ticket) hk rfl fun h => by simp [Slot.giveUp, h] with h | ⟨rfl, h⟩
    · exact .inl h
    · exact .inr (.inr (.inl (.inr ⟨turn, h, rfl⟩)))
  | @handOn k u s₀ hk =>
    rcases ended (u := u) hk rfl fun h => by simp [Slot.handOn, h] with h | ⟨rfl, rfl⟩
    · exact .inl h
    · exact .inr (.inr (.inl (.inl rfl)))
  | @idle k u n s₀ hk hu =>
    rcases other hk rfl with ⟨rfl, rfl⟩ | h
    · obtain rfl := Slot.owns_unique hu ho
      exact .inr (.inl ⟨n, rfl⟩)
    · exact .inl h
  | create =>
    have := (List.getElem?_eq_some_iff.mp hs).1
    rw [Core.slots_create, if_neg (by omega), hs] at hs'
    cases hs'
    exact .inl ho
  | _ => exact .inl (same rfl)

namespace System

variable {S T : System} {a b : Instr} {rest : List Instr} {reply : Reply} {others : List Thread}
  {v : Invocation} {id ticket : Nat} {i i' : Instance}

/-- What is pending relies on something, and on what is done after it. -/
theorem Coherent.fits_of_mem (C : S.Coherent) (hb : b ∈ S.pending) :
    ∃ later, (∀ x ∈ later, x ∈ S.pending) ∧ b.Fits S.machine.core later := by
  obtain ⟨t, ht, hbt⟩ := mem_pending.mp hb
  obtain ⟨later, hl, F⟩ := (C.agendas t ht).of_mem hbt
  exact ⟨later, fun x hx => mem_pending.mpr ⟨t, ht, hl x hx⟩, F⟩

/-- The job of a turn that somebody is to take or to finish is at work. -/
theorem Coherent.turn_atWork (C : S.Coherent) (hb : b ∈ S.pending)
    (hk : b.turn? = some (id, ticket)) :
    ∃ n, S.machine.core.IsTurn n id ticket ∧ S.machine.core.AtWork n := by
  obtain ⟨later, hl, F⟩ := C.fits_of_mem hb
  cases b with
  | takeTurn k t n => cases hk; exact ⟨n, F.1, F.2.1⟩
  | finishTurn k t =>
    cases hk
    obtain ⟨n, ht, hd⟩ := F
    obtain ⟨later', -, F'⟩ := C.fits_of_mem (hl _ hd)
    exact ⟨n, ht, F'⟩
  | _ => cases hk

/-- A turn that somebody is to finish becomes outstanding by nothing. -/
theorem Moves.owns_before (M : Moves S a rest reply others T) (C : S.Coherent)
    (hb : b ∈ S.pending) (hk : b.turn? = some (id, ticket)) (hi : S.machine.get? id = some i)
    (hi' : T.machine.get? id = some i') (ho : i'.owns ticket = true) : i.owns ticket = true := by
  refine Classical.byContradiction fun hno => ?_
  obtain ⟨n, ht, -⟩ := C.turn_atWork hb hk
  have stale : S.machine.core.Stale n id ticket :=
    ⟨ht, _, Machine.slot_of_get? hi, Bool.eq_false_iff.mpr hno⟩
  obtain ⟨-, s, hs, hn⟩ := stale.grows C.booked (M.grows C)
  obtain rfl : i'.slot = s := Option.some.inj ((Machine.slot_of_get? hi').symm.trans hs)
  exact Bool.false_ne_true (hn.symm.trans ho)

/-- What is true of turns at work. -/
structure Turning (S : System) : Prop where
  once : (S.pending.filterMap Instr.turn?).Nodup
  agendas : ∀ t ∈ S.threads, Lined Instr.Finishes t.agenda
  shown : ∀ b ∈ S.pending, ∀ v, b.serves? = some v → ∀ i, S.machine.get? v.id = some i →
    i.owns v.ticket = true →
      i.currentEvent = some v.event.name ∧ i.detected = v.event.detected

theorem Turning.finishes (U : S.Turning) (hb : b ∈ S.pending) (hv : b.serves? = some v) :
    .finishTurn v.id v.ticket ∈ S.pending := by
  obtain ⟨t, ht, hbt⟩ := mem_pending.mp hb
  obtain ⟨later, hl, hf⟩ := (U.agendas t ht).of_mem hbt
  exact mem_pending.mpr ⟨t, ht, hl _ (hf v hv)⟩

/-- Who is at a turn elsewhere finishes it elsewhere. -/
theorem Moves.finishes_elsewhere (M : Moves S a rest reply others T) (U : S.Turning)
    (hb : b ∈ elsewhere rest others) (hv : b.serves? = some v) :
    .finishTurn v.id v.ticket ∈ elsewhere rest others := by
  obtain ⟨l, hbl, hl, hin⟩ := M.agenda_of_mem hb
  have L : Lined Instr.Finishes l := by
    rcases hin with rfl | ⟨t, ht, rfl⟩
    · exact (U.agendas _ M.mover).2
    · exact U.agendas t ht
  obtain ⟨later, hlater, hf⟩ := L.of_mem hbl
  exact hl _ (hlater _ (hf v hv))

/-- There is an instance for every turn at work. -/
theorem Turning.exists_get? (U : S.Turning) (C : S.Coherent) (hb : b ∈ S.pending)
    (hv : b.serves? = some v) : ∃ i, S.machine.get? v.id = some i := by
  obtain ⟨n, ⟨j, hj, ho, -⟩, -⟩ := C.turn_atWork (U.finishes hb hv) rfl
  obtain ⟨s, hs, -⟩ := C.booked.owners n j hj
  obtain ⟨i, hi, -⟩ := Machine.exists_get? (ho ▸ hs)
  exact ⟨i, hi⟩

/-- Nobody but the thread that is at a turn takes or finishes it. -/
theorem Moves.not_turn (M : Moves S a rest reply others T) (U : S.Turning)
    (hb : b ∈ S.pending) (hv : b.serves? = some v) : a.turn? ≠ some (v.id, v.ticket) := by
  intro ha
  rcases M.mem_before.mp hb with rfl | hb
  · cases b <;> first | (cases ha; done) | cases hv
  · exact M.held_once U.once ha
      (List.mem_filterMap.mpr ⟨_, M.finishes_elsewhere U hb hv, rfl⟩)

theorem Moves.given_up {turn : Turn} (M : Moves S a rest reply others T) (C : S.Coherent)
    (ha : a = .stopEnd id turn) (hi : S.machine.get? id = some i)
    (hi' : T.machine.get? id = some i') : i'.owns turn.ticket = false := by
  subst ha
  have hs' := Machine.slot_of_get? hi'
  rw [M.machine] at hs'
  simp only [Instr.exec, Instr.about, hi, Instr.plain] at hs'
  rw [Machine.core_endStop hi, Core.slots_revise (Machine.slot_of_get? hi), if_pos rfl] at hs'
  rw [Instance.owns, ← Option.some.inj hs']
  exact Slot.not_owns_giveUp (C.booked.ticket_le (Machine.slot_of_get? hi))

/-- While somebody is at a turn, it is lost by being given up only. -/
theorem Moves.owns_after (M : Moves S a rest reply others T) (C : S.Coherent) (U : S.Turning)
    (hb : b ∈ S.pending) (hv : b.serves? = some v) (hi : S.machine.get? v.id = some i)
    (hi' : T.machine.get? v.id = some i') (ho : i.owns v.ticket = true) :
    i'.owns v.ticket = true ∨ ∃ turn, turn.ticket = v.ticket ∧ a = .stopEnd v.id turn := by
  have hs := Machine.slot_of_get? hi
  have other := M.not_turn U hb hv
  rcases M.effect.owns hs (Machine.slot_of_get? hi') ho with h | ⟨n, rfl⟩ | (rfl | h) |
    ⟨ms, turn, rfl, hc, hcan⟩
  · exact .inl h
  · exact absurd rfl other
  · exact absurd rfl other
  · exact .inr h
  · -- A job that is given back has not started.
    obtain ⟨j, hj, hq⟩ := Machine.queued_of_canCancel hcan
    obtain ⟨n, ⟨j', hj', ho', ht'⟩, hw⟩ := C.turn_atWork (U.finishes hb hv) rfl
    obtain ⟨k, hk, hko, hkt, -⟩ := C.booked.outstanding v.id _ turn hs hc
    obtain ⟨turn', hc', ht⟩ := Slot.owns_iff.mp ho
    obtain rfl : turn = turn' := Option.some.inj (hc.symm.trans hc')
    obtain rfl := C.booked.job_unique hj' hk (ho'.trans hko.symm) (ht'.trans (hkt.trans ht).symm)
    exact absurd hw.started (Core.not_started hj hq)

/-- While a turn is the outstanding one, what is shown stays what its sections rely on. -/
theorem Moves.shown (M : Moves S a rest reply others T) (C : S.Coherent) (U : S.Turning)
    (hb : b ∈ S.pending) (hv : b.serves? = some v) (hi' : T.machine.get? v.id = some i')
    (ho' : i'.owns v.ticket = true) :
    i'.currentEvent = some v.event.name ∧ i'.detected = v.event.detected := by
  obtain ⟨i, hi⟩ := U.exists_get? C hb hv
  have ho := M.owns_before C (U.finishes hb hv) rfl hi hi' ho'
  obtain ⟨s, p, hg⟩ := M.get?_after hi
  obtain rfl := Option.some.inj (hi'.symm.trans hg)
  have old := U.shown b hb v hv i hi ho
  have other := M.not_turn U hb hv
  rcases a.snapshot_alter v.id i with ⟨hc, hd⟩ | ⟨ticket, hot, h⟩
  · exact ⟨hc.trans old.1, hd.trans old.2⟩
  · obtain rfl := Slot.owns_unique hot ho
    rcases h with ⟨n, rfl⟩ | rfl | ⟨turn, ht, rfl⟩
    · exact absurd rfl other
    · exact absurd rfl other
    · cases (ht ▸ M.given_up C rfl hi hi').symm.trans ho'

theorem Moves.turning (M : Moves S a rest reply others T) (C : S.Coherent) (U : S.Turning) :
    T.Turning where
  once := by
    refine M.held_nodup U.once ?_
    rcases M.effect.turns_next with e | e | ⟨n, j, _, _, hj, hq, -, e⟩
    · exact .inl e
    · exact .inr (.inl e)
    · have one : (a.exec S.machine reply).next.filterMap Instr.turn? = [(j.owner, j.ticket)] := by
        rw [e]
        rfl
      refine .inr (.inr ⟨by rw [one]; exact List.pairwise_singleton _ _, fun k hk h => ?_⟩)
      rw [one, List.mem_singleton] at hk
      subst hk
      obtain ⟨b, hb, hk⟩ := List.mem_filterMap.mp h
      obtain ⟨n', ⟨j', hj', ho, ht⟩, hw⟩ := C.turn_atWork (M.mem_before.mpr (.inr hb)) hk
      obtain rfl := C.booked.job_unique hj' hj ho ht
      exact Core.not_started hj hq hw.started
  agendas t ht := by
    rcases M.threads t ht with h | h
    · rw [h]
      have L := U.agendas _ M.mover
      refine Lined.append ?_ L.2
      by_cases taken : ∃ v, (a.exec S.machine reply).next =
          [.readDetected v, .finishTurn v.id v.ticket]
      · obtain ⟨v, hn⟩ := taken
        rw [hn]
        refine ⟨fun w hw => ?_, nofun, trivial⟩
        cases hw
        simp
      · refine Lined.of_forall fun b hb later v hv => ?_
        rcases Machine.serves_next S.machine reply hb hv with
          ⟨w, hw, hs⟩ | ⟨_, _, _, _, _, _, _, _, hn⟩
        · exact List.mem_append_right _ (hs.id ▸ hs.ticket ▸ L.1 w hw)
        · exact absurd ⟨v, hn⟩ taken
    · exact U.agendas t (M.still t h)
  shown b hb v hv i' hi' ho' := by
    rcases M.mem_after.mp hb with hb | hb
    · rcases Machine.serves_next S.machine reply hb hv with
        ⟨w, hw, hs⟩ | ⟨n, i, rest', rfl, hi, ho, hp, hset, -⟩
      · have := M.shown C U (M.mem_before.mpr (.inl rfl)) hw (hs.id ▸ hi') (hs.ticket ▸ ho')
        exact hs.event ▸ this
      · obtain ⟨s, p, hg⟩ := M.get?_after hi
        obtain rfl := Option.some.inj (hi'.symm.trans hg)
        simp [Instr.alter, Instr.change?, ho, hp, Instance.take, hset]
    · exact M.shown C U (M.mem_before.mpr (.inr hb)) hv hi' ho'

theorem Life.turning {h : List Section} {S : System} (H : Life h S) : S.Turning := by
  refine H.induct_steps (P := fun _ S => S.Turning) ?_ ?_ ?_ ?_ ?_
  · exact fun m _ => ⟨List.nodup_nil, fun _ h => (List.not_mem_nil h).elim,
      fun _ h => (List.not_mem_nil h).elim⟩
  · intro h m ts o U
    have e : pending ⟨m, ts ++ [.ofOp o]⟩ = pending ⟨m, ts⟩ ++ [.op o] := pending_append m m ts _
    refine ⟨?_, fun t ht => ?_, fun b hb v hv => ?_⟩
    · rw [e, List.filterMap_append]
      exact (List.append_nil _).symm ▸ U.once
    · rcases List.mem_append.mp ht with ht | ht
      · exact U.agendas t ht
      · obtain rfl := List.mem_singleton.mp ht
        exact ⟨nofun, trivial⟩
    · rw [e, List.mem_append, List.mem_singleton] at hb
      rcases hb with hb | rfl
      · exact U.shown b hb v hv
      · cases hv
  · intro h m ts n j H hj hq U
    have e : pending ⟨m.setPhase n .running, ts ++ [.ofJob j.owner j.ticket n]⟩ =
        pending ⟨m, ts⟩ ++ [.takeTurn j.owner j.ticket n, .jobDone n] := pending_append _ m ts _
    refine ⟨?_, fun t ht => ?_, fun b hb v hv => ?_⟩
    · rw [e, List.filterMap_append]
      refine List.nodup_append.mpr ⟨U.once, List.pairwise_singleton _ _, fun k hk k' hk' he => ?_⟩
      obtain rfl : k' = (j.owner, j.ticket) := List.mem_singleton.mp hk'
      subst he
      obtain ⟨b, hb, hkb⟩ := List.mem_filterMap.mp hk
      obtain ⟨n', ⟨j', hj', ho, ht⟩, hw⟩ := H.coherent.turn_atWork hb hkb
      obtain rfl := H.coherent.booked.job_unique hj' hj ho ht
      exact Core.not_started (c := m.core) hj hq hw.started
    · rcases List.mem_append.mp ht with ht | ht
      · exact U.agendas t ht
      · obtain rfl := List.mem_singleton.mp ht
        exact ⟨nofun, nofun, trivial⟩
    · rw [e, List.mem_append] at hb
      rcases hb with hb | hb
      · exact U.shown b hb v hv
      · simp only [List.mem_cons, List.not_mem_nil, or_false] at hb
        rcases hb with rfl | rfl <;> cases hv
  · exact fun h m ts b U => ⟨U.once, U.agendas, U.shown⟩
  · exact fun h S T a rest reply others H M U => M.turning H.coherent U

end System

end ScriptHost
