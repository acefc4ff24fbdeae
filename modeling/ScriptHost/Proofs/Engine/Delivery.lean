import ScriptHost.Proofs.Engine.Dispatch
import ScriptHost.Proofs.Engine.Noting

/-!
# Delivery

What becomes of the events of an instance, told from the sections of a run:
which were accepted into the queue, which a turn took, which a clear discarded,
and for which a handler was called. Events are taken in the order in which they
were accepted, and each that is taken is called for once (`delivered_in_order`).
-/

namespace ScriptHost

/-- Those of the events that find room, each pushed after the ones before it. -/
def Queue.admitted (q : Queue) : List Event → List Event
  | [] => []
  | e :: l => (if (q.push e).2 = .accepted then [e] else []) ++ (q.push e).1.admitted l

namespace Section

/-- What is said of the instance that the section is about, if it is that of this number. -/
def on {α : Type} (s : Section) (id k : Nat) (f : Instance → List α) : List α :=
  if k = id then ((s.machine.get? id).map f).getD [] else []

/-- The events that the section puts into the queue of the instance. -/
def accepted (id : Nat) (s : Section) : List Event :=
  match s.instr with
  | .post k e => s.on id k fun i => if (s.machine.post id i e).2 = .accepted then [e] else []
  | .refill k l => s.on id k fun i => i.slot.queue.admitted l
  | _ => []

/-- The event that the section takes for a turn, with the ticket of the turn. -/
def taken (id : Nat) (s : Section) : List (Nat × Event) :=
  match s.instr with
  | .takeTurn k ticket _ => s.on id k fun i =>
    if i.owns ticket then i.slot.queue.events.head?.toList.map (ticket, ·) else []
  | _ => []

/-- The events that the section clears away. -/
def discarded (id : Nat) (s : Section) : List Event :=
  match s.instr with
  | .clearQueue k => s.on id k fun i => i.slot.queue.events
  | _ => []

/-- The event for which the section calls a handler, with the ticket of the turn. -/
def called (id : Nat) (s : Section) : List (Nat × Event) :=
  match s.instr with
  | .enter v => if v.id = id then s.calls.map fun _ => (v.ticket, v.event) else []
  | _ => []

section On

variable {α : Type} {m : Machine} {a : Instr} {id k : Nat} {f : Instance → List α} {i : Instance}

@[simp] theorem on_other (h : k ≠ id) : Section.on ⟨m, a⟩ id k f = [] := if_neg h

@[simp] theorem on_absent (h : m.get? id = none) : Section.on ⟨m, a⟩ id k f = [] := by
  simp [on, h]

@[simp] theorem on_self (h : m.get? id = some i) : Section.on ⟨m, a⟩ id id f = f i := by
  simp [on, h]

theorem called_enter (v : Invocation) : called id ⟨m, .enter v⟩ =
    on ⟨m, .enter v⟩ id v.id fun _ => [(v.ticket, v.event)] := by
  by_cases hv : v.id = id
  · subst hv
    cases hi : m.get? v.id <;> simp [called, calls_enter, on, hi]
  · simp [called, hv]

end On

end Section

/-- The events accepted in the course of some sections, without those at the end that a clear
discarded. -/
def kept (id : Nat) (h : List Section) : List Event :=
  h.foldl (fun l s => l.take (l.length - (s.discarded id).length) ++ s.accepted id) []

/-- A section that will lead to a call of a handler: the turn's ticket and the event. -/
def Instr.due? (id : Nat) : Instr → Option (Nat × Event)
  | .readDetected v | .lockScript v | .enter v =>
    if v.id = id then some (v.ticket, v.event) else none
  | _ => none

/-! ## Queues -/

section Queues

variable {q : Queue} {e : Event}

theorem Queue.push_events :
    (q.push e).1.events = q.events ++ if (q.push e).2 = .accepted then [e] else [] := by
  unfold Queue.push
  split
  · simp
  · split
    · simp
    · simp

theorem Queue.pushAll_events {l : List Event} :
    (q.pushAll l).events = q.events ++ q.admitted l := by
  induction l generalizing q with
  | nil => simp [pushAll, admitted]
  | cons e l ih =>
    have := ih (q := (q.push e).1)
    simp only [pushAll, List.foldl_cons, admitted] at this ⊢
    rw [this, push_events, List.append_assoc]

theorem Queue.pop?_eq_some {rest : Queue} (h : q.pop? = some (e, rest)) :
    q.events = e :: rest.events := by
  unfold pop? at h
  split at h
  · cases h
  · next hq => cases h; exact hq

theorem Machine.post_accepted_iff {m : Machine} {id : Nat} {i : Instance} :
    (m.post id i e).2 = .accepted ↔
      i.slot.running = true ∧ (i.slot.queue.push e).2 = .accepted := by
  unfold post
  cases i.slot.running <;> simp

end Queues

/-! ## What one section does -/

/-- The section takes events from the front of the queue and adds those it accepts at the back, or
it discards them all. -/
def Section.Carries (s : Section) (id : Nat) (before after : List Event) : Prop :=
  s.discarded id = [] ∧ (s.taken id).map (·.2) ++ after = before ++ s.accepted id ∨
  s.discarded id = before ∧ after = [] ∧ s.taken id = [] ∧ s.accepted id = []

/-- Sections that are about what is in a queue. -/
def Instr.handles : Instr → Bool
  | .post _ _ | .clearQueue _ | .refill _ _ | .takeTurn _ _ _ => true
  | _ => false

namespace Section

variable {m : Machine} {a : Instr} {id : Nat} {l : List Event}

theorem accepted_eq_nil (h : a.handles = false) : accepted id ⟨m, a⟩ = [] := by
  cases a <;> first | rfl | cases h

theorem taken_eq_nil (h : a.handles = false) : taken id ⟨m, a⟩ = [] := by
  cases a <;> first | rfl | cases h

theorem discarded_eq_nil (h : a.handles = false) : discarded id ⟨m, a⟩ = [] := by
  cases a <;> first | rfl | cases h

theorem carries_absent (h : m.get? id = none) : Section.Carries ⟨m, a⟩ id [] [] := by
  left
  cases hc : a.handles with
  | false => simp [accepted_eq_nil hc, taken_eq_nil hc, discarded_eq_nil hc]
  | true =>
    cases a with
    | post | clearQueue | refill | takeTurn => simp [accepted, taken, discarded, h]
    | _ => cases hc

theorem carries_refl (h : a.handles = false) : Section.Carries ⟨m, a⟩ id l l :=
  .inl ⟨discarded_eq_nil h, by simp [taken_eq_nil h, accepted_eq_nil h]⟩

/-- A section about one instance leaves the queues of the others. -/
theorem carries_other {k : Nat} (h : a.subject? = some k) (hne : k ≠ id) :
    Section.Carries ⟨m, a⟩ id l l := by
  cases hc : a.handles with
  | false => exact carries_refl hc
  | true =>
    left
    cases a with
    | post | clearQueue | refill | takeTurn =>
      cases h
      simp [accepted, taken, discarded, hne]
    | _ => cases hc

end Section

theorem Core.queue_of_revise {c : Core} {id k : Nat} {r : Revision} {s s₀ s' : Slot}
    (hk : c.slots[k]? = some s₀) (hs : c.slots[id]? = some s)
    (hs' : (c.revise k r).slots[id]? = some s') :
    k = id ∧ s₀ = s ∧ s'.queue = r.slot.queue ∨ k ≠ id ∧ s' = s := by
  rw [slots_revise hk] at hs'
  by_cases h : id = k
  · subst h
    rw [if_pos rfl] at hs'
    cases hs'
    refine .inl ⟨rfl, by simpa [hs] using hk.symm, ?_⟩
    split <;> rfl
  · rw [if_neg h] at hs'
    exact .inr ⟨Ne.symm h, by simpa [hs] using hs'.symm⟩

theorem Effect.carries {m : Machine} {a : Instr} {c : Core} {next : List Instr} {id : Nat}
    {s s' : Slot} (e : Effect m a c next) (hs : m.core.slots[id]? = some s)
    (hs' : c.slots[id]? = some s') :
    Section.Carries ⟨m, a⟩ id s.queue.events s'.queue.events := by
  obtain ⟨i, hi, rfl⟩ := Machine.exists_get? hs
  have same : a.handles = false → c.slots = m.core.slots →
      Section.Carries ⟨m, a⟩ id i.slot.queue.events s'.queue.events := fun h hc => by
    rw [hc, hs] at hs'
    cases hs'
    exact Section.carries_refl h
  have revised : ∀ {k : Nat} {s₀ : Slot} {r : Revision}, a.subject? = some k →
      m.core.slots[k]? = some s₀ → c.slots = (m.core.revise k r).slots →
      (m.get? k = some i → s₀ = i.slot →
        Section.Carries ⟨m, a⟩ k s₀.queue.events r.slot.queue.events) →
      Section.Carries ⟨m, a⟩ id i.slot.queue.events s'.queue.events := by
    intro k s₀ r hsub hk hc own
    rw [hc] at hs'
    rcases Core.queue_of_revise hk hs hs' with ⟨rfl, rfl, hq⟩ | ⟨hne, rfl⟩
    · rw [hq]; exact own hi rfl
    · exact Section.carries_other hsub hne
  have unmoved : ∀ {k : Nat} {s₀ : Slot} {r : Revision}, a.handles = false →
      a.subject? = some k → m.core.slots[k]? = some s₀ →
      c.slots = (m.core.revise k r).slots → r.slot.queue = s₀.queue →
      Section.Carries ⟨m, a⟩ id i.slot.queue.events s'.queue.events := by
    intro k s₀ r h hsub hk hc hq
    refine revised hsub hk hc fun _ _ => ?_
    rw [hq]
    exact Section.carries_refl h
  cases e with
  | silent h =>
    refine same ?_ rfl
    cases a <;> first | rfl | cases h
  | @absent _ k hsub hno =>
    have hne : k ≠ id := by rintro rfl; rw [hi] at hno; cases hno
    rw [hs] at hs'
    cases hs'
    exact Section.carries_other hsub hne
  | start hk => exact unmoved rfl rfl hk rfl Slot.queue_start
  | halt hk => exact unmoved rfl rfl hk rfl rfl
  | @cancel _ _ s₀ _ hk => exact unmoved rfl rfl hk (r := ⟨s₀.halt true, false⟩) rfl rfl
  | await hk => exact unmoved rfl rfl hk rfl rfl
  | giveUp hk => exact unmoved rfl rfl hk rfl Slot.queue_giveUp
  | handOn hk => exact unmoved rfl rfl hk rfl Slot.queue_handOn
  | post hk =>
    refine revised rfl hk rfl fun hi hs => .inl ?_
    subst hs
    rw [Slot.queue_post]
    cases hr : i.slot.running <;>
      simp [Section.discarded, Section.taken, Section.accepted, hi, Machine.post_accepted_iff, hr,
        Queue.push_events]
  | clear hk =>
    refine revised rfl hk rfl fun hi hs => .inr ?_
    subst hs
    simp [Section.discarded, Section.taken, Section.accepted, hi, Queue.clear, Queue.empty]
  | refill hk =>
    refine revised rfl hk rfl fun hi hs => .inl ?_
    subst hs
    simp [Section.discarded, Section.taken, Section.accepted, hi, Queue.pushAll_events]
  | idle hk ho hempty =>
    refine revised rfl hk rfl fun hi hs => .inl ?_
    subst hs
    simp [Section.discarded, Section.taken, Section.accepted, hi, hempty]
  | stale hk ho =>
    refine revised rfl hk (congrArg Core.slots (Core.revise_self hk).symm) fun hi hs => .inl ?_
    subst hs
    simp [Section.discarded, Section.taken, Section.accepted, hi, Instance.owns, ho]
  | takeSwitch hk ho hpop =>
    refine revised rfl hk rfl fun hi hs => .inl ?_
    subst hs
    simp [Section.discarded, Section.taken, Section.accepted, hi, Instance.owns, ho,
      Queue.pop?_eq_some hpop]
  | take hk ho hpop =>
    refine revised rfl hk rfl fun hi hs => .inl ?_
    subst hs
    simp [Section.discarded, Section.taken, Section.accepted, hi, Instance.owns, ho,
      Queue.pop?_eq_some hpop]
  | create =>
    have hlt := (List.getElem?_eq_some_iff.mp hs).1
    rw [Core.slots_create, if_neg (by omega), hs] at hs'
    cases hs'
    exact Section.carries_refl rfl
  | fresh h => rcases h with rfl | rfl <;> exact same rfl rfl
  | _ => exact same rfl rfl

theorem Effect.slots_length {m : Machine} {a : Instr} {c : Core} {next : List Instr}
    (e : Effect m a c next) :
    c.slots.length = m.core.slots.length ∨ ∃ l, c = m.core.create l := by
  cases e with
  | create => exact .inr ⟨_, rfl⟩
  | _ => left; simp [Core.revise, Core.rephase, Core.trip, Core.unregister, Core.enter, Core.enlist]

/-- A new instance has nothing queued. -/
theorem Effect.queue_new {m : Machine} {a : Instr} {c : Core} {next : List Instr} {id : Nat}
    {s : Slot} (e : Effect m a c next) (hn : m.core.slots[id]? = none)
    (hs : c.slots[id]? = some s) : s.queue.events = [] := by
  rcases e.slots_length with h | ⟨l, rfl⟩
  · have := (List.getElem?_eq_some_iff.mp hs).1
    have := List.getElem?_eq_none_iff.mp hn
    omega
  · rw [Core.slots_create] at hs
    split at hs
    · cases hs; rfl
    · cases hn.symm.trans hs

/-! ## Calls -/

def due (id : Nat) (l : List Instr) : List (Nat × Event) := l.filterMap (Instr.due? id)

theorem due_append {id : Nat} (l r : List Instr) : due id (l ++ r) = due id l ++ due id r := by
  simp [due]

theorem due_bringsUp {id k : Nat} {l : List Instr} (h : ∀ b ∈ l, b.bringsUp k = true) :
    due id l = [] := by
  rw [due, List.filterMap_eq_nil_iff]
  intro b hb
  have := h b hb
  cases b <;> first | rfl | cases this

theorem due_of_light {id : Nat} {l : List Instr} (h : ∀ b ∈ l, b.light = true) :
    due id l = [] :=
  due_bringsUp fun b hb => Instr.bringsUp_of_light 0 (h b hb)

theorem due_finishLoad {id k : Nat} {l : Loading} : due id (Instr.finishLoad k l) = [] := by
  unfold Instr.finishLoad
  cases l.registers <;> rfl

/-- The events that turns have taken for a handler, in the course of some sections. -/
def forHandlers (l : List (Nat × Event)) : List (Nat × Event) :=
  l.filter fun p => !p.2.isSetState

/-- Sections that lead from the taking of an event to the call of its handler. -/
def Instr.leadsToCall : Instr → Bool
  | .takeTurn _ _ _ | .readDetected _ | .lockScript _ | .enter _ => true
  | _ => false

namespace Section

variable {m : Machine} {a : Instr} {id : Nat}

theorem called_eq_nil (h : a.leadsToCall = false) : called id ⟨m, a⟩ = [] := by
  cases a <;> first | rfl | cases h

theorem taken_eq_nil_of_leadsToCall (h : a.leadsToCall = false) : taken id ⟨m, a⟩ = [] := by
  cases a <;> first | rfl | cases h

theorem due_eq_nil (h : a.leadsToCall = false) : due id [a] = [] := by
  cases a <;> first | rfl | cases h

end Section

/-- An event that is taken for a handler is due, and stays due until the handler is called. -/
theorem Effect.due {m : Machine} {a : Instr} {c : Core} {next later : List Instr} {id : Nat}
    (e : Effect m a c next) (F : a.Fits m.core later) :
    forHandlers (Section.taken id ⟨m, a⟩) ++ ScriptHost.due id [a] =
      Section.called id ⟨m, a⟩ ++ ScriptHost.due id next := by
  have quiet : a.leadsToCall = false → ScriptHost.due id next = [] →
      forHandlers (Section.taken id ⟨m, a⟩) ++ ScriptHost.due id [a] =
        Section.called id ⟨m, a⟩ ++ ScriptHost.due id next := fun h hn => by
    rw [hn, Section.called_eq_nil h, Section.taken_eq_nil_of_leadsToCall h, Section.due_eq_nil h]
    rfl
  have turn : ∀ {k ticket n : Nat}, a = .takeTurn k ticket n →
      ScriptHost.due id next = forHandlers (Section.taken id ⟨m, a⟩) →
      forHandlers (Section.taken id ⟨m, a⟩) ++ ScriptHost.due id [a] =
        Section.called id ⟨m, a⟩ ++ ScriptHost.due id next := by
    rintro k ticket n rfl hn
    rw [hn]
    exact List.append_nil _
  have found : ∀ {k : Nat}, k < m.core.slots.length → ∃ i, m.get? k = some i := fun hk => by
    obtain ⟨i, hi, -⟩ := Machine.exists_get? (List.getElem?_eq_getElem hk)
    exact ⟨i, hi⟩
  cases e with
  | silent ha hn =>
    by_cases hc : a.leadsToCall = false
    · exact quiet hc (due_of_light hn)
    · cases a with
      | enter v =>
        obtain ⟨i, hi⟩ := found F
        rw [due_of_light hn]
        by_cases hv : v.id = id
        · subst hv
          simp [forHandlers, Section.taken, Section.called_enter, ScriptHost.due, Instr.due?, hi]
        · simp [forHandlers, Section.taken, Section.called_enter, ScriptHost.due, Instr.due?, hv]
      | takeTurn | readDetected | lockScript => cases ha
      | _ => exact absurd rfl hc
  | @absent _ k hsub hno =>
    by_cases hc : a.leadsToCall = false
    · exact quiet hc rfl
    · cases a with
      | takeTurn n ticket job =>
        cases hsub
        by_cases hk : k = id
        · subst hk
          simp [forHandlers, Section.taken, Section.called, ScriptHost.due, Instr.due?, hno]
        · simp [forHandlers, Section.taken, Section.called, ScriptHost.due, Instr.due?, hk]
      | readDetected v =>
        obtain ⟨i, hi⟩ := found F
        cases hsub
        cases hno.symm.trans hi
      | lockScript | enter => cases hsub
      | _ => exact absurd rfl hc
  | unregister _ hn => exact quiet rfl (due_of_light (by simpa [Instr.light] using hn))
  | @fresh _ k l h =>
    have hn : ScriptHost.due id (Instr.freshStart k l.request ++ Instr.finishLoad k l) = [] := by
      rw [due_append, due_bringsUp Instr.bringsUp_freshStart, due_finishLoad]
      rfl
    rcases h with rfl | rfl <;> exact quiet rfl hn
  | restore =>
    refine quiet rfl ?_
    rw [due_append, due_bringsUp Instr.bringsUp_restore, due_finishLoad]
    rfl
  | @reset _ running => cases running <;> exact quiet rfl rfl
  | wait => exact quiet rfl (by rw [due_append, due_of_light Instr.light_nested]; rfl)
  | @stale k ticket n s hk ho =>
    obtain ⟨i, hi, rfl⟩ := Machine.exists_get? hk
    refine turn rfl ?_
    by_cases h : k = id
    · subst h
      simp [forHandlers, Section.taken, hi, Instance.owns, ho, ScriptHost.due]
    · simp [forHandlers, Section.taken, h, ScriptHost.due]
  | @idle k ticket n s hk ho hempty =>
    obtain ⟨i, hi, rfl⟩ := Machine.exists_get? hk
    refine turn rfl ?_
    by_cases h : k = id
    · subst h
      simp [forHandlers, Section.taken, hi, hempty, ScriptHost.due]
    · simp [forHandlers, Section.taken, h, ScriptHost.due]
  | @takeSwitch k ticket n s e rest next hk ho hpop hset hn =>
    obtain ⟨i, hi, rfl⟩ := Machine.exists_get? hk
    refine turn rfl ?_
    rw [due_append, due_of_light hn, Section.due_eq_nil rfl]
    by_cases h : k = id
    · subst h
      simp [forHandlers, Section.taken, hi, Instance.owns, ho, Queue.pop?_eq_some hpop, hset]
    · simp [forHandlers, Section.taken, h]
  | @take k ticket n s e rest hk ho hpop hset =>
    obtain ⟨i, hi, rfl⟩ := Machine.exists_get? hk
    refine turn rfl ?_
    by_cases h : k = id
    · subst h
      simp [forHandlers, Section.taken, hi, Instance.owns, ho, Queue.pop?_eq_some hpop, hset,
        ScriptHost.due, Instr.due?]
    · simp [forHandlers, Section.taken, h, ScriptHost.due, Instr.due?]
  | read => rfl
  | lock => rfl
  | _ => exact quiet rfl rfl

theorem Effect.keys_takeTurn {m : Machine} {id ticket n : Nat} {c : Core} {next : List Instr}
    (e : Effect m (.takeTurn id ticket n) c next) : keys next = [] := by
  cases e with
  | silent ha => cases ha
  | fresh h => rcases h with h | h <;> cases h
  | takeSwitch _ _ _ _ hn => rw [keys_append, keys_of_light hn]; rfl
  | _ => rfl

/-! ## Whole runs -/

theorem kept_snoc {id : Nat} (h : List Section) (s : Section) : kept id (h ++ [s]) =
    (kept id h).take ((kept id h).length - (s.discarded id).length) ++ s.accepted id := by
  simp [kept]

theorem Section.taken_cases (m : Machine) (a : Instr) (id : Nat) :
    Section.taken id ⟨m, a⟩ = [] ∨ ∃ ticket n e, a = .takeTurn id ticket n ∧
      Section.taken id ⟨m, a⟩ = [(ticket, e)] := by
  cases a with
  | takeTurn k ticket n =>
    by_cases hk : k = id
    · subst hk
      cases hi : m.get? k with
      | none => simp [taken, hi]
      | some i =>
        cases ho : i.owns ticket <;> cases hq : i.slot.queue.events <;>
          simp [taken, hi, ho, hq]
    · simp [taken, hk]
  | _ => exact .inl rfl

namespace System

/-- The events queued at an instance. -/
def queued (S : System) (id : Nat) : List Event :=
  ((S.machine.get? id).map (·.slot.queue.events)).getD []

/-- What is true of the events of an instance after some sections. The last clause is what keeps
tickets apart: a turn that has taken its event is at work, and nobody can take for it again. -/
structure Delivered (id : Nat) (h : List Section) (S : System) : Prop where
  order : (h.flatMap (Section.taken id)).map (·.2) ++ S.queued id = kept id h
  cleared : ∀ before s after, h = before ++ s :: after → s.discarded id <:+ kept id before
  tickets : ((h.flatMap (Section.taken id)).map (·.1)).Nodup
  calls : (forHandlers (h.flatMap (Section.taken id))).Perm
    (h.flatMap (Section.called id) ++ due id S.pending)
  spent : ∀ p ∈ h.flatMap (Section.taken id), ∃ n, S.machine.core.IsTurn n id p.1 ∧
    S.machine.core.Started n ∧ .taking n ∉ keys S.pending

section Delivered

variable {S T : System} {a : Instr} {rest : List Instr} {reply : Reply} {others : List Thread}
  {id : Nat} {h : List Section}

theorem queued_of_get? {i : Instance} (h : S.machine.get? id = some i) :
    S.queued id = i.slot.queue.events := by
  simp [queued, h]

theorem Moves.carries (M : Moves S a rest reply others T) (C : S.Coherent) (id : Nat) :
    Section.Carries ⟨S.machine, a⟩ id (S.queued id) (T.queued id) := by
  cases hi : S.machine.get? id with
  | none =>
    have before : S.queued id = [] := by simp [queued, hi]
    have after : T.queued id = [] := by
      cases hi' : T.machine.get? id with
      | none => simp [queued, hi']
      | some i =>
        rw [queued_of_get? hi']
        exact M.effect.queue_new (Machine.slots_of_get?_none hi)
          (Machine.slot_of_get? hi')
    rw [before, after]
    exact Section.carries_absent hi
  | some i =>
    obtain ⟨s', hs', -⟩ := (M.grows C).turns id _ (Machine.slot_of_get? hi)
    obtain ⟨i', hi', rfl⟩ := Machine.exists_get? hs'
    rw [queued_of_get? hi, queued_of_get? hi']
    exact M.effect.carries (Machine.slot_of_get? hi) hs'

theorem Moves.due (M : Moves S a rest reply others T) (C : S.Coherent) :
    (forHandlers (Section.taken id ⟨S.machine, a⟩) ++ ScriptHost.due id S.pending).Perm
      (Section.called id ⟨S.machine, a⟩ ++ ScriptHost.due id T.pending) := by
  have before : (ScriptHost.due id S.pending).Perm
      (ScriptHost.due id [a] ++ ScriptHost.due id (elsewhere rest others)) := by
    rw [← due_append]
    exact M.before.filterMap _
  have after : (ScriptHost.due id T.pending).Perm
      (ScriptHost.due id (a.exec S.machine reply).next ++
        ScriptHost.due id (elsewhere rest others)) := by
    rw [← due_append]
    exact M.after.filterMap _
  refine (before.append_left _).trans (.trans ?_ (after.append_left _).symm)
  rw [← List.append_assoc, ← List.append_assoc, M.effect.due (M.fits C)]

/-- A turn takes at most one event: once it has, nobody is about to take for it. -/
theorem Moves.taken_spent (M : Moves S a rest reply others T) (C : S.Coherent)
    {ticket n : Nat} (ha : a = .takeTurn id ticket n) : .taking n ∉ ScriptHost.keys T.pending := by
  subst ha
  intro hk
  rcases M.held_after.mp hk with hk | hk
  · rw [← keys, M.effect.keys_takeTurn] at hk; cases hk
  · exact M.held_once C.keys rfl hk

theorem Delivered.move (D : Delivered id h S) (M : Moves S a rest reply others T)
    (C : S.Coherent) : Delivered id (h ++ [⟨S.machine, a⟩]) T where
  order := by
    have old := D.order
    rw [kept_snoc, List.flatMap_append, List.map_append, List.append_assoc]
    simp only [List.flatMap_cons, List.flatMap_nil, List.append_nil]
    rcases M.carries C id with ⟨hd, hc⟩ | ⟨hd, ha, ht, hacc⟩
    · rw [hc, hd, ← List.append_assoc, old]
      simp
    · rw [ha, ht, hacc, hd, ← old]
      simp
  cleared before s after he := by
    rcases List.eq_nil_or_concat after with rfl | ⟨l, x, rfl⟩
    · obtain ⟨rfl, hs⟩ := List.append_inj' he rfl
      cases hs
      rcases M.carries C id with ⟨hd, -⟩ | ⟨hd, -⟩
      · rw [hd]; exact List.nil_suffix
      · rw [hd, ← D.order]; exact List.suffix_append _ _
    · have he : h ++ [⟨S.machine, a⟩] = (before ++ s :: l) ++ [x] := by simpa using he
      exact D.cleared before s l (List.append_inj' he rfl).1
  tickets := by
    rw [List.flatMap_append, List.map_append]
    simp only [List.flatMap_cons, List.flatMap_nil, List.append_nil]
    rcases Section.taken_cases S.machine a id with ht | ⟨ticket, n, e, ha, ht⟩
    · simpa [ht] using D.tickets
    · rw [ht, List.nodup_append]
      refine ⟨D.tickets, by simp, fun x hx y hy hxy => ?_⟩
      obtain rfl : y = ticket := by simpa using hy
      subst hxy ha
      obtain ⟨p, hp, rfl⟩ := List.mem_map.mp hx
      obtain ⟨k, ⟨j, hj, ho, ht⟩, -, hk⟩ := D.spent p hp
      obtain ⟨⟨j', hj', ho', ht'⟩, -⟩ := M.fits C
      obtain rfl := C.booked.job_unique hj hj' (ho.trans ho'.symm) (ht.trans ht'.symm)
      exact hk (M.held_before.mpr (.inl rfl))
  calls := by
    simp only [List.flatMap_append, List.flatMap_cons, List.flatMap_nil, List.append_nil]
    have old := D.calls
    rw [forHandlers] at old ⊢
    rw [List.filter_append]
    refine (old.append_right _).trans ?_
    rw [List.append_assoc, List.append_assoc]
    exact (List.perm_append_comm.trans (M.due C)).append_left _
  spent p hp := by
    simp only [List.flatMap_append, List.flatMap_cons, List.flatMap_nil, List.append_nil,
      List.mem_append] at hp
    have G := M.grows C
    rcases hp with hp | hp
    · obtain ⟨n, hturn, hstart, hk⟩ := D.spent p hp
      refine ⟨n, G.turn n id p.1 hturn, G.started n hstart, fun hk' => ?_⟩
      rcases M.mem_keys_after hk' with hk' | hk'
      · exact hk hk'
      · exact hk' hstart
    · rcases Section.taken_cases S.machine a id with ht | ⟨ticket, n, e, ha, ht⟩
      · rw [ht] at hp; cases hp
      · obtain rfl : p = (ticket, e) := by simpa [ht] using hp
        have spent := M.taken_spent C ha
        subst ha
        obtain ⟨hturn, hwork, -⟩ := M.fits C
        exact ⟨n, G.turn n id ticket hturn, G.started n hwork.started, spent⟩

theorem Delivered.start {m : Machine} (hm : m.Fresh) : Delivered id [] ⟨m, []⟩ where
  order := by simp [queued, Machine.get?, hm.instances, kept]
  cleared before s after he := by simp at he
  tickets := List.nodup_nil
  calls := .nil
  spent p hp := by cases hp

/-- Steps that are no sections change nothing for the events. -/
theorem Delivered.still (D : Delivered id h S) (hq : T.queued id = S.queued id)
    (hd : ScriptHost.due id T.pending = ScriptHost.due id S.pending)
    (hs : ∀ n ticket, S.machine.core.IsTurn n id ticket → S.machine.core.Started n →
      .taking n ∉ keys S.pending → T.machine.core.IsTurn n id ticket ∧
        T.machine.core.Started n ∧ .taking n ∉ keys T.pending) : Delivered id (h ++ []) T where
  order := by rw [hq, List.append_nil]; exact D.order
  cleared := by rw [List.append_nil]; exact D.cleared
  tickets := by rw [List.append_nil]; exact D.tickets
  calls := by rw [hd, List.append_nil]; exact D.calls
  spent p hp := by
    rw [List.append_nil] at hp
    obtain ⟨n, h1, h2, h3⟩ := D.spent p hp
    exact ⟨n, hs n p.1 h1 h2 h3⟩

theorem Delivered.step {l : List Section} (D : Delivered id h S) (C : S.Coherent)
    (s : S.Step l T) : Delivered id (h ++ l) T := by
  revert D C
  refine s.cases_on (P := fun S l T => Delivered id h S → S.Coherent →
    Delivered id (h ++ l) T) ?_ ?_ ?_ ?_
  · intro m ts o D _
    have e : pending ⟨m, ts ++ [.ofOp o]⟩ = pending ⟨m, ts⟩ ++ [.op o] := pending_append m m ts _
    refine D.still rfl ?_ fun n ticket h1 h2 h3 => ⟨h1, h2, ?_⟩
    · rw [e, due_append]; exact List.append_nil _
    · rw [e, keys_append]
      simpa [keys, Instr.key?] using h3
  · intro m ts k j hj hq D C
    have e : pending ⟨m.setPhase k .running, ts ++ [.ofJob j.owner j.ticket k]⟩ =
        pending ⟨m, ts⟩ ++ [.takeTurn j.owner j.ticket k, .jobDone k] := pending_append _ m ts _
    have G : m.core.Grows .noteReply (m.core.rephase k .running) := .claim hj hq
    refine D.still rfl ?_ fun n ticket h1 h2 h3 =>
      ⟨G.turn n id ticket h1, G.started n h2, fun hk => ?_⟩
    · rw [e, due_append]; exact List.append_nil _
    · rw [e, keys_append, List.mem_append] at hk
      rcases hk with hk | hk
      · exact h3 hk
      · have : n = k := by simpa [keys, Instr.key?] using hk
        exact Core.not_started (c := m.core) hj hq (this ▸ h2)
  · intro m ts b _ D _
    exact D.still rfl rfl fun n ticket h1 h2 h3 => ⟨h1, h2, h3⟩
  · intro S T a rest reply others M D C
    exact D.move M C

theorem Life.delivered (H : Life h S) : Delivered id h S :=
  H.induct (P := fun h S => Delivered id h S) (fun _ hm => .start hm)
    fun _ _ _ _ H D s => D.step H.coherent s

end Delivered

/-- In every life of a host, of every instance: the events that turns have taken so far, followed
by those still queued, are the events that were accepted into the queue, in that order, without
those that a clear discarded, which stood at the end when it did. Each turn took one event, and
the events taken are called for once, or the call is due, reserved records apart. -/
theorem delivered_in_order {h : List Section} {S : System} (H : Life h S) (id : Nat) :
    (h.flatMap (Section.taken id)).map (·.2) ++ S.queued id = kept id h ∧
    (∀ before s after, h = before ++ s :: after → s.discarded id <:+ kept id before) ∧
    ((h.flatMap (Section.taken id)).map (·.1)).Nodup ∧
    (forHandlers (h.flatMap (Section.taken id))).Perm
      (h.flatMap (Section.called id) ++ due id S.pending) := by
  have D : Delivered id h S := H.delivered
  exact ⟨D.order, D.cleared, D.tickets, D.calls⟩

/-- A host whose pool gives no job back, with an instance whose queue was cleared before it was
posted to, stopped in vain, started again, and run. -/
def cleared : List Section × System :=
  System.visits 60 ⟨.bare true, []⟩ [.loadIdle "a" 1, .clearQueue "a", .post "a" (.plain "x" []),
    .stop "a" 5, .start "a", .post "a" (.plain "y" []), .run 2]

theorem delivered_in_order_cleared :
    Life cleared.1 cleared.2 ∧
      (cleared.1.flatMap (Section.discarded 0)).map Event.name = ["state_entry"] ∧
      (cleared.1.flatMap (Section.taken 0)).map (·.2.name) = ["x"] ∧
      (cleared.2.queued 0).map Event.name = ["y"] ∧
      (cleared.1.flatMap (Section.taken 0)).map (·.2) ++ cleared.2.queued 0 =
        kept 0 cleared.1 :=
  ⟨Life.visits true 60 _, by decide, by decide, by decide,
    (delivered_in_order (Life.visits true 60 _) 0).1⟩

end System

end ScriptHost
