import ScriptHost.Proofs.Engine.Requests
import ScriptHost.Proofs.Engine.Resetting

/-!
# A switch of the state, in three records

A switch of the named state goes through the queue: a caller posts
`state_exit`, the reserved record and `state_entry`, one after the other, and
does not look what becomes of each. Nothing holds the three together. While
nobody else posts to the instance, those that find room are queued, so a queue
with one or two free places gets a part of the switch (`switch_queued`).
-/

namespace ScriptHost

/-- The records of a switch of the named state. -/
def Event.switching (target : String) : List Event := [.stateExit, .setState target, .stateEntry]

theorem Instr.setState_eq (id : Nat) (target : String) :
    setState id target = (Event.switching target).map (.post id) := rfl

namespace Section

variable {m : Machine} {a : Instr} {id : Nat}

theorem accepted_of_undirected (h : a.directs id = false) : accepted id ⟨m, a⟩ = [] := by
  cases a with
  | post k e => exact on_other (by simpa [Instr.directs] using h)
  | refill k l => exact on_other (by simpa [Instr.directs] using h)
  | _ => rfl

theorem discarded_of_undirected (h : a.directs id = false) : discarded id ⟨m, a⟩ = [] := by
  cases a with
  | clearQueue k => exact on_other (by simpa [Instr.directs] using h)
  | _ => rfl

theorem taken_post (k : Nat) (e : Event) : taken id ⟨m, .post k e⟩ = [] := rfl

end Section

/-- A section that is not about the slot of an instance in particular leaves it running or stopped
and its queue as large as it was. -/
theorem Effect.slot_undirected {m : Machine} {a : Instr} {c : Core} {next : List Instr} {id : Nat}
    {s : Slot} (e : Effect m a c next) (hs : m.core.slots[id]? = some s)
    (undirected : a.directs id = false) :
    ∃ s', c.slots[id]? = some s' ∧ s'.running = s.running ∧
      s'.queue.capacity = s.queue.capacity := by
  have revised : ∀ {k : Nat} {s₀ : Slot} {r : Revision}, m.core.slots[k]? = some s₀ →
      c.slots = (m.core.revise k r).slots →
      (k = id → r.slot.running = s₀.running ∧ r.slot.queue.capacity = s₀.queue.capacity) →
      ∃ s', c.slots[id]? = some s' ∧ s'.running = s.running ∧
        s'.queue.capacity = s.queue.capacity := by
    intro k s₀ r hk hc same
    rw [hc, Core.slots_revise hk]
    split
    · next he =>
      subst he
      obtain rfl := Option.some.inj (hk.symm.trans hs)
      refine ⟨_, rfl, ?_⟩
      split <;> exact same rfl
    · exact ⟨s, hs, rfl, rfl⟩
  have directed : ∀ {k : Nat} {p : Prop}, a.directs id = (k == id) → k = id → p := fun h he => by
    rw [undirected, he, beq_self_eq_true] at h
    cases h
  cases e with
  | start hk => exact revised hk rfl (directed rfl)
  | post hk => exact revised hk rfl (directed rfl)
  | clear hk => exact revised hk rfl (directed rfl)
  | refill hk => exact revised hk rfl (directed rfl)
  | halt hk => exact revised hk rfl (directed rfl)
  | @cancel _ _ s₀ _ hk => exact revised (r := ⟨s₀.halt true, false⟩) hk rfl (directed rfl)
  | await hk => exact revised hk rfl (directed rfl)
  | giveUp hk => exact revised hk rfl fun _ => ⟨Slot.running_giveUp, by rw [Slot.queue_giveUp]⟩
  | handOn hk => exact revised hk rfl fun _ => ⟨Slot.running_handOn, by rw [Slot.queue_handOn]⟩
  | idle hk => exact revised hk rfl fun _ => ⟨rfl, rfl⟩
  | takeSwitch hk _ hp => exact revised hk rfl fun _ => ⟨rfl, Queue.capacity_pop? hp⟩
  | take hk _ hp => exact revised hk rfl fun _ => ⟨rfl, Queue.capacity_pop? hp⟩
  | create =>
    have := (List.getElem?_eq_some_iff.mp hs).1
    exact ⟨s, by rw [Core.slots_create, if_neg (by omega), hs], rfl, rfl⟩
  | _ => exact ⟨s, hs, rfl, rfl⟩

/-- What has become of events that were posted one after the other: `s` is the slot before them and
`s'` the one after, `queued` are those of them that were accepted, and `taken` is what turns have
taken meanwhile. -/
structure Slot.Admits (s s' : Slot) (posted queued taken : List Event) : Prop where
  running : s'.running = s.running
  capacity : s'.queue.capacity = s.queue.capacity
  events : taken ++ s'.queue.events = s.queue.events ++ queued
  among : queued.Sublist posted
  stopped : s.running = false → queued = []
  roomy : s.running = true → s.queue.length + posted.length ≤ s.queue.capacity → queued = posted
  untaken : s.running = true → taken = [] →
    queued = posted.take (s.queue.capacity - s.queue.length)

namespace Slot.Admits

variable {s s' s'' : Slot} {posted queued taken more : List Event} {e : Event}

theorem refl (s : Slot) : s.Admits s [] [] [] where
  running := rfl
  capacity := rfl
  events := by simp
  among := .refl _
  stopped _ := rfl
  roomy _ _ := rfl
  untaken _ _ := List.take_nil.symm

/-- A turn may take events meanwhile. -/
theorem take (A : s.Admits s' posted queued taken) (running : s''.running = s'.running)
    (capacity : s''.queue.capacity = s'.queue.capacity)
    (events : more ++ s''.queue.events = s'.queue.events) :
    s.Admits s'' posted queued (taken ++ more) where
  running := running.trans A.running
  capacity := capacity.trans A.capacity
  events := by rw [List.append_assoc, events, A.events]
  among := A.among
  stopped := A.stopped
  roomy := A.roomy
  untaken hr ht := A.untaken hr (List.append_eq_nil_iff.mp ht).1

/-- The next event is accepted if the instance runs and there is room. -/
theorem post (A : s.Admits s' posted queued taken) (untimed : e.isTimer = false)
    (running : s''.running = s'.running)
    (queue : s''.queue = if s'.running then (s'.queue.push e).1 else s'.queue) :
    s.Admits s'' (posted ++ [e])
      (queued ++ if s'.running = true ∧ s'.queue.length < s'.queue.capacity then [e] else [])
      taken := by
  have length : taken.length + s'.queue.length = s.queue.length + queued.length := by
    simpa [Queue.length] using congrArg List.length A.events
  have fewer := A.among.length_le
  have accepted := Queue.push_accepted_iff (q := s'.queue) untimed
  refine ⟨running.trans A.running, ?_, ?_, ?_, fun hr => ?_, fun hr room => ?_, fun hr none => ?_⟩
  · rw [queue, ← A.capacity]
    split
    · exact Queue.capacity_push
    · rfl
  · rw [queue, ← List.append_assoc, ← A.events, List.append_assoc]
    split
    · next hr => simp only [hr, Queue.push_events, accepted, true_and]
    · next hr => simp [hr]
  · refine A.among.append ?_
    split
    · exact .refl _
    · exact List.nil_sublist _
  · simp [A.running, hr, A.stopped hr]
  · rw [List.length_append, List.length_singleton] at room
    rw [A.capacity, A.running, if_pos ⟨hr, by omega⟩, A.roomy hr (by omega)]
  · have so_far := A.untaken hr none
    have long : queued.length = min (s.queue.capacity - s.queue.length) posted.length := by
      rw [so_far, List.length_take]
    rw [none, List.length_nil, Nat.zero_add] at length
    by_cases room : s'.queue.length < s'.queue.capacity
    · have whole : queued = posted := A.among.eq_of_length_le (by rw [A.capacity] at room; omega)
      rw [if_pos ⟨A.running.trans hr, room⟩, whole, List.take_of_length_le]
      rw [List.length_append, List.length_singleton]
      rw [A.capacity, length, whole] at room
      omega
    · rw [if_neg fun h => room h.2, List.append_nil, List.take_append_of_le_length, so_far]
      rw [A.capacity, length] at room
      omega

/-- Of several events that are posted while none is taken, all or none are queued if there is room
for all or for none, or if the instance does not run. -/
theorem whole_or_none (A : s.Admits s' posted queued []) (some : posted ≠ []) :
    queued = posted ∨ queued = [] ↔ s.running = false ∨ s.queue.capacity ≤ s.queue.length ∨
      s.queue.length + posted.length ≤ s.queue.capacity := by
  cases hr : s.running with
  | false => simp [A.stopped hr]
  | true =>
    rw [A.untaken hr rfl, List.take_eq_self_iff, List.take_eq_nil_iff]
    simp only [some, or_false, Bool.true_eq_false, false_or]
    omega

end Slot.Admits

namespace System

variable {S T : System} {l : List Section} {id k : Nat} {i : Instance} {es : List Event}
  {rest : List Instr} {r₀ r₁ : Reply}

/-- A thread that has posts to make makes them in that order. -/
theorem Run.posts (r : Run S l T) (hk : S.threads[k]? = some ⟨es.map (.post id) ++ rest, r₀⟩)
    (hT : T.threads[k]? = some ⟨rest, r₁⟩) : ∃ own : List Section,
      own.Sublist (l.filter (·.instr.directs id)) ∧ own.map (·.instr) = es.map (.post id) := by
  have progress : ∃ own : List Section, own.Sublist (l.filter (·.instr.directs id)) ∧
      (own.map (·.instr) = es.map (.post id) ∨ ∃ done left r, es = done ++ left ∧
        own.map (·.instr) = done.map (.post id) ∧
        T.threads[k]? = some ⟨left.map (.post id) ++ rest, r⟩) := by
    clear hT
    induction r with
    | refl => exact ⟨[], .refl _, .inr ⟨[], es, r₀, rfl, rfl, hk⟩⟩
    | @snoc g l V W r s ih =>
      obtain ⟨own, sub, so_far⟩ := ih
      have grown : own.Sublist ((g ++ l).filter (·.instr.directs id)) :=
        sub.trans ((List.sublist_append_left g l).filter _)
      rcases so_far with all | ⟨done, left, r, rfl, hd, hV⟩
      · exact ⟨own, grown, .inl all⟩
      · rcases s.thread hV with hW | ⟨a, rest', ha, rfl, -, hW⟩
        · exact ⟨own, grown, .inr ⟨done, left, r, rfl, hd, hW⟩⟩
        · cases left with
          | nil => exact ⟨own, grown, .inl (by simpa using hd)⟩
          | cons e left =>
            obtain ⟨rfl, rfl⟩ := List.cons.inj ha
            have next : ((Instr.post id e).exec V.machine r).next = [] := by
              simp only [Instr.exec]
              split <;> rfl
            refine ⟨own ++ [⟨V.machine, .post id e⟩], ?_, .inr ⟨done ++ [e], left, _, by simp, ?_,
              by rw [hW, next]; rfl⟩⟩
            · rw [List.filter_append]
              exact sub.append (by simp [Instr.directs])
            · simp [hd]
  obtain ⟨own, sub, all | ⟨done, left, r, rfl, hd, hT'⟩⟩ := progress
  · exact ⟨own, sub, all⟩
  · have same := congrArg Thread.agenda (Option.some.inj (hT.symm.trans hT'))
    obtain rfl : left = [] := List.map_eq_nil_iff.mp (List.self_eq_append_left.mp same)
    exact ⟨own, sub, by simpa using hd⟩

/-- What becomes of some events that are posted to an instance while nobody else posts to it, clears
its queue, starts it or stops it. -/
theorem Run.admits (r : Run S l T) (hi : S.machine.get? id = some i)
    (only : (l.filter (·.instr.directs id)).map (·.instr) = es.map (.post id))
    (untimed : ∀ e ∈ es, e.isTimer = false) :
    ∃ j, T.machine.get? id = some j ∧ i.slot.Admits j.slot es (l.flatMap (Section.accepted id))
      ((l.flatMap (Section.taken id)).map (·.2)) := by
  induction r generalizing es with
  | refl =>
    obtain rfl : es = [] := by simpa using only.symm
    exact ⟨i, hi, .refl _⟩
  | @snoc g l V W r s ih =>
    rw [List.filter_append, List.map_append] at only
    obtain ⟨done, new, rfl, hd, hn⟩ := List.map_eq_append_iff.mp only.symm
    obtain ⟨j, hj, A⟩ := ih hd.symm fun e he => untimed e (List.mem_append_left _ he)
    rcases s.joins_or_moves with ⟨rfl, J⟩ | ⟨a, rest, reply, others, rfl, M⟩
    · obtain rfl : new = [] := by simpa using hn
      exact ⟨j, (J.get? id).trans hj, by simpa using A⟩
    · have hs := Machine.slot_of_get? hj
      rw [List.flatMap_append, List.flatMap_append, List.map_append, List.flatMap_singleton,
        List.flatMap_singleton]
      cases ha : a.directs id with
      | true =>
        obtain ⟨e, rfl, rfl⟩ : ∃ e, new = [e] ∧ .post id e = a := by simpa [ha] using hn
        have he : e.isTimer = false := untimed e (by simp)
        obtain ⟨j', hj', hslot⟩ := M.revised (v := j.slot.post e) hj (by
          simp only [Instr.exec, hj, Instr.plain]
          exact Machine.core_post hj e)
        refine ⟨j', hj', ?_⟩
        rw [Machine.accepted_post hj he, Section.taken_post, List.map_nil, List.append_nil]
        refine A.post he ?_ ?_
        · rw [hslot]
          split
          · exact Slot.running_post
          · exact Slot.running_post
        · rw [hslot, ← Slot.queue_post]
          split <;> rfl
      | false =>
        obtain rfl : new = [] := by simpa [ha] using hn
        obtain ⟨s', hs', running, capacity⟩ := M.effect.slot_undirected hs ha
        obtain ⟨j', hj', rfl⟩ := Machine.exists_get? hs'
        have carried : (Section.taken id ⟨V.machine, a⟩).map (·.2) ++ j'.slot.queue.events =
            j.slot.queue.events := by
          rcases M.effect.carries hs hs' with ⟨-, h⟩ | ⟨discards, empty, none, -⟩
          · rwa [Section.accepted_of_undirected ha, List.append_nil] at h
          · rw [none, empty, ← discards, Section.discarded_of_undirected ha]
            rfl
        refine ⟨j', hj', ?_⟩
        rw [Section.accepted_of_undirected ha, List.append_nil, List.append_nil]
        exact A.take running capacity carried

/-- What comes of a switch of the named state, called by whomever, if in its course nobody else
posts to the instance, clears its queue, starts it or stops it; turns go on. Of the three records,
in their order, those are queued that find room: none if the instance does not run, and all if
there is room for three. If no turn takes an event meanwhile, it is as many as there are free
places; so the switch is queued whole or not at all unless there are one or two of them. -/
theorem switch_queued {target : String} (r : Run S l T)
    (hk : S.threads[k]? = some ⟨Instr.setState id target ++ rest, r₀⟩)
    (hT : T.threads[k]? = some ⟨rest, r₁⟩)
    (alone : (l.filter (·.instr.directs id)).length ≤ 3)
    (hi : S.machine.get? id = some i) :
    ∃ j queued, T.machine.get? id = some j ∧
      (l.flatMap (Section.taken id)).map (·.2) ++ j.slot.queue.events =
        i.slot.queue.events ++ queued ∧
      queued.Sublist [.stateExit, .setState target, .stateEntry] ∧
      (i.slot.running = false → queued = []) ∧
      (i.slot.running = true → i.slot.queue.length + 3 ≤ i.slot.queue.capacity →
        queued = [.stateExit, .setState target, .stateEntry]) ∧
      (l.flatMap (Section.taken id) = [] →
        (i.slot.running = true → queued = [.stateExit, .setState target, .stateEntry].take
          (i.slot.queue.capacity - i.slot.queue.length)) ∧
        (queued = [.stateExit, .setState target, .stateEntry] ∨ queued = [] ↔
          i.slot.running = false ∨ i.slot.queue.capacity ≤ i.slot.queue.length ∨
            i.slot.queue.length + 3 ≤ i.slot.queue.capacity)) := by
  rw [Instr.setState_eq] at hk
  obtain ⟨own, sub, posts⟩ := r.posts hk hT
  have three : own.length = 3 := by simpa [Event.switching] using congrArg List.length posts
  obtain rfl : own = l.filter (·.instr.directs id) := sub.eq_of_length_le (three ▸ alone)
  have untimed : ∀ e ∈ Event.switching target, e.isTimer = false := by
    simp [Event.switching, Event.isTimer, Event.stateExit, Event.stateEntry, Event.setState,
      Event.plain]
  obtain ⟨j, hj, A⟩ := r.admits hi posts untimed
  refine ⟨j, _, hj, A.events, A.among, A.stopped, A.roomy, fun none => ?_⟩
  rw [none, List.map_nil] at A
  exact ⟨fun hr => A.untaken hr rfl, A.whole_or_none (List.cons_ne_nil _ _)⟩

/-- A host with an instance whose queue has two places, in one of which is `state_entry`; a caller
is about to switch its state. -/
def cramped : List Section × System := System.play 40 ⟨.bare true, []⟩
  [.call (.load "a" ⟨{ (default : Identity) with item := .ofNat 1 }, 0, false, .newRez⟩ .idle
    (some ⟨2, 65536, 1024⟩))]

def switchingCramped : List Section × System :=
  System.play 1 cramped.2 [.call (.setState "a" "x")]

theorem switch_queued_cramped : ∃ i j, switchingCramped.2.machine.get? 0 = some i ∧
    i.slot.running = true ∧ i.slot.queue.events = [.stateEntry] ∧
    (System.play 3 switchingCramped.2 [.go 1]).2.machine.get? 0 = some j ∧
    j.slot.queue.events = [.stateEntry, .stateExit] := by
  obtain ⟨i, r₀, r₁, hk, hT, alone, hi, running, queue, room⟩ : ∃ i r₀ r₁,
      switchingCramped.2.threads[1]? = some ⟨Instr.setState 0 "x" ++ [.answer .nothing], r₀⟩ ∧
      (System.play 3 switchingCramped.2 [.go 1]).2.threads[1]? = some ⟨[.answer .nothing], r₁⟩ ∧
      ((System.play 3 switchingCramped.2 [.go 1]).1.filter (·.instr.directs 0)).length = 3 ∧
      switchingCramped.2.machine.get? 0 = some i ∧ i.slot.running = true ∧
      i.slot.queue.events = [.stateEntry] ∧ i.slot.queue.capacity = 2 :=
    ⟨_, _, _, rfl, rfl, rfl, rfl, rfl, rfl, rfl⟩
  obtain ⟨j, queued, hj, events, -, -, -, law⟩ :=
    switch_queued (Run.play 3 _ _) hk hT alone.le hi
  obtain ⟨some, -⟩ := law rfl
  have first : queued = [.stateExit] := by
    rw [some running, room, Queue.length, queue]
    rfl
  refine ⟨i, j, hi, running, queue, hj, ?_⟩
  have none : (System.play 3 switchingCramped.2 [.go 1]).1.flatMap (Section.taken 0) = [] := rfl
  rw [none, List.map_nil, List.nil_append, queue, first] at events
  exact events

end System

end ScriptHost
