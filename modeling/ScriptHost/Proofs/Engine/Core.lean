import ScriptHost.Engine.Step

/-!
# The core of a machine

What scheduling depends on: whose the instances are, their slots, the jobs,
the registry and the names. A section that only notes, logs, or changes what
the script itself sees leaves the core as it is; a section about a slot makes
a `Revision` of it, and asks the pool for a turn or not.
-/

namespace ScriptHost

/-- Where no two entries have one key, each of them is found by its key. -/
theorem lookup_of_mem {α β : Type} [BEq α] [LawfulBEq α] {l : List (α × β)} {k : α} {x : β}
    (nodup : (l.map (·.1)).Nodup) (h : (k, x) ∈ l) : l.lookup k = some x := by
  obtain ⟨before, after, rfl⟩ := List.append_of_mem h
  rw [List.map_append, List.nodup_append] at nodup
  refine List.lookup_eq_some_iff.mpr ⟨before, after, rfl, fun p hp => ?_⟩
  simpa using (nodup.2.2 p.1 (List.mem_map_of_mem hp) k (by simp)).symm

/-- What a section makes of a slot, and whether it then asks the pool for a turn. -/
structure Revision where
  slot : Slot
  asks : Bool

namespace Slot

/-- The slot once the pool has been asked for a turn, which is given a job of this number. -/
def ask (s : Slot) (job : Nat) : Slot :=
  { s with current := some ⟨s.lastTicket + 1, job⟩, lastTicket := s.lastTicket + 1 }

def start (s : Slot) : Revision :=
  if s.running then ⟨s, false⟩
  else ⟨{ s with running := true }, !s.queue.isEmpty && s.current.isNone⟩

/-- The first section of a stop; `taken` if the pool gave the turn back. -/
def halt (s : Slot) (taken : Bool) : Slot :=
  { s with running := false, current := if taken then none else s.current }

theorem halt_of_stopped {s : Slot} (h : s.running = false) : s.halt false = s := by
  cases s; simp_all [halt]

/-- The last section of a stop. -/
def giveUp (s : Slot) (ticket : Nat) : Revision :=
  if s.owns ticket then ⟨{ s with current := none }, s.hasWork⟩ else ⟨s, false⟩

def post (s : Slot) (e : Event) : Revision :=
  if s.running then
    ⟨{ s with queue := (s.queue.push e).1 },
      (s.queue.push e).2.isAccepted && s.current.isNone⟩
  else ⟨s, false⟩

/-- The last section of a turn. -/
def handOn (s : Slot) (ticket : Nat) : Revision :=
  if s.owns ticket then
    if s.hasWork then ⟨s, true⟩ else ⟨{ s with current := none }, false⟩
  else ⟨s, false⟩

section

variable {s : Slot} {e : Event} {ticket : Nat}

@[simp] theorem running_start : s.start.slot.running = true := by
  unfold start
  split
  · assumption
  · rfl

@[simp] theorem running_giveUp : (s.giveUp ticket).slot.running = s.running := by
  unfold giveUp; split <;> rfl

@[simp] theorem running_post : (s.post e).slot.running = s.running := by
  unfold post; split <;> rfl

@[simp] theorem running_handOn : (s.handOn ticket).slot.running = s.running := by
  unfold handOn
  split
  · split <;> rfl
  · rfl

@[simp] theorem queue_start : s.start.slot.queue = s.queue := by
  unfold start; split <;> rfl

@[simp] theorem queue_giveUp : (s.giveUp ticket).slot.queue = s.queue := by
  unfold giveUp; split <;> rfl

@[simp] theorem queue_handOn : (s.handOn ticket).slot.queue = s.queue := by
  unfold handOn
  split
  · split <;> rfl
  · rfl

theorem queue_post : (s.post e).slot.queue =
    if s.running then (s.queue.push e).1 else s.queue := by
  unfold post; split <;> rfl

end

theorem owns_iff {s : Slot} {ticket : Nat} :
    s.owns ticket = true ↔ ∃ turn, s.current = some turn ∧ turn.ticket = ticket := by
  unfold owns
  cases s.current <;> simp

end Slot

structure Core where
  identities : List Identity
  slots : List Slot
  jobs : List Job
  registered : List (Uuid × Nat)
  named : List (String × Nat)
  refusesCancel : Bool
  abortsRunning : Bool

namespace Core

def job? (c : Core) (n : Nat) : Option Job := if n = 0 then none else c.jobs[n - 1]?

/-- Operations can be called on the instance by name. -/
def Named (c : Core) (id : Nat) : Prop := id ∈ c.named.map (·.2)

def revise (c : Core) (id : Nat) (r : Revision) : Core :=
  { c with
    slots := c.slots.set id (if r.asks then r.slot.ask (c.jobs.length + 1) else r.slot)
    jobs := c.jobs ++ if r.asks then [⟨id, r.slot.lastTicket + 1, .queued, false⟩] else [] }

def rephase (c : Core) (n : Nat) (p : Phase) : Core :=
  { c with jobs := c.jobs.modify (n - 1) fun j => { j with phase := p } }

def trip (c : Core) (n : Nat) : Core :=
  { c with jobs := c.jobs.modify (n - 1) fun j => { j with interrupted := true } }

def unregister (c : Core) (item : Uuid) : Core :=
  { c with registered := c.registered.filter (·.1 != item) }

/-- The instance takes the place of what was registered for the item. -/
def enter (c : Core) (item : Uuid) (id : Nat) : Core :=
  { c with registered := Machine.insertByItem item id (c.unregister item).registered }

/-- A new instance, with nothing queued and not running. -/
def create (c : Core) (l : Loading) : Core :=
  { c with
    identities := c.identities ++ [l.request.identity]
    slots := c.slots ++ [⟨.empty l.limits.queueCapacity, false, none, 0⟩] }

def enlist (c : Core) (name : String) (id place : Nat) : Core :=
  { c with named := c.named.take place ++ (name, id) :: c.named.drop place }

theorem named_enlist {c : Core} {name : String} {id place k : Nat} :
    (c.enlist name id place).Named k ↔ k = id ∨ c.Named k := by
  have all : c.Named k ↔ k ∈ (c.named.take place).map (·.2) ∨ k ∈ (c.named.drop place).map (·.2) := by
    rw [Named, ← List.mem_append, ← List.map_append, List.take_append_drop]
  rw [all, Named, enlist, List.map_append, List.map_cons, List.mem_append, List.mem_cons]
  exact or_left_comm

theorem revise_self {c : Core} {id : Nat} {s : Slot} (h : c.slots[id]? = some s) :
    c.revise id ⟨s, false⟩ = c := by
  obtain ⟨hlt, rfl⟩ := List.getElem?_eq_some_iff.mp h
  simp [revise]

end Core

namespace Machine

def identities (m : Machine) : List Identity := m.instances.map (·.identity)

def slots (m : Machine) : List Slot := m.instances.map (·.slot)

def core (m : Machine) : Core where
  identities := m.identities
  slots := m.slots
  jobs := m.jobs
  registered := m.registered
  named := m.named
  refusesCancel := m.refusesCancel
  abortsRunning := m.abortsRunning

@[simp] theorem core_job? (m : Machine) (n : Nat) : m.core.job? n = m.job? n := rfl

theorem slots_getElem? (m : Machine) (id : Nat) :
    m.core.slots[id]? = (m.get? id).map (·.slot) := by
  simp [core, slots, get?]

theorem identities_getElem? (m : Machine) (id : Nat) :
    m.core.identities[id]? = (m.get? id).map (·.identity) := by
  simp [core, identities, get?]

theorem slot_of_get? {m : Machine} {id : Nat} {i : Instance} (h : m.get? id = some i) :
    m.core.slots[id]? = some i.slot := by
  simp [slots_getElem?, h]

theorem slots_of_get?_none {m : Machine} {id : Nat} (h : m.get? id = none) :
    m.core.slots[id]? = none := by
  simp [slots_getElem?, h]

theorem exists_get? {m : Machine} {id : Nat} {s : Slot} (h : m.core.slots[id]? = some s) :
    ∃ i, m.get? id = some i ∧ i.slot = s := by
  simpa [slots_getElem?] using h

/-! ## Notes -/

@[simp] theorem core_note (m : Machine) (n : Note) : (m.note n).core = m.core := rfl

@[simp] theorem core_log (m : Machine) (l : Level) (s : String) : (m.log l s).core = m.core := rfl

@[simp] theorem core_count (m : Machine) (c : Metric) : (m.count c).core = m.core := rfl

theorem map_modify {α β : Type} {f : α → α} {g : α → β} {k : β → β} (l : List α) (n : Nat)
    (h : ∀ a, g (f a) = k (g a)) : (l.modify n f).map g = (l.map g).modify n k := by
  induction l generalizing n with
  | nil => simp
  | cons a l ih =>
    cases n with
    | zero => simp [h]
    | succ n => simp [ih]

/-- A change that touches neither slot nor identity. -/
@[simp] theorem core_modify (m : Machine) (n : Nat) (f : Instance → Instance)
    (hs : ∀ i, (f i).slot = i.slot) (hi : ∀ i, (f i).identity = i.identity) :
    (m.modify n f).core = m.core := by
  simp only [core, modify, slots, identities, map_modify (k := id) _ n hs,
    map_modify (k := id) _ n hi, List.modify_id]

/-- A change of a slot alone. -/
theorem core_modify_slot {m : Machine} {n : Nat} {s : Slot} (h : m.core.slots[n]? = some s)
    (f : Instance → Instance) (g : Slot → Slot) (hs : ∀ i, (f i).slot = g i.slot)
    (hi : ∀ i, (f i).identity = i.identity) :
    (m.modify n f).core = m.core.revise n ⟨g s, false⟩ := by
  have e : m.slots.modify n g = m.slots.set n (g s) := by
    rw [List.modify_eq_set, show m.slots[n]? = some s from h, Option.getD_some]
  simp only [core, modify, slots, identities, map_modify (k := g) _ n hs,
    map_modify (k := id) _ n hi, List.modify_id, Core.revise] at e ⊢
  simp [e]

@[simp] theorem core_sendMask (m : Machine) (i : Instance) : (m.sendMask i).core = m.core := rfl

@[simp] theorem core_publishMask (m : Machine) (id : Nat) (i : Instance) :
    (m.publishMask id i).core = m.core := by
  rw [publishMask, core_modify _ _ Instance.publish (fun _ => rfl) fun _ => rfl]
  split <;> rfl

@[simp] theorem settle_slot (i : Instance) : i.settle.slot = i.slot := rfl

@[simp] theorem settle_identity (i : Instance) : i.settle.identity = i.identity := rfl

@[simp] theorem core_settle (m : Machine) (id : Nat) : (m.settle id).core = m.core := by
  unfold settle
  split
  · rfl
  · rw [core_modify _ _ _ settle_slot settle_identity]
    split <;> rfl

@[simp] theorem edit_slot (i : Instance) (e : Edit) : (i.edit e).slot = i.slot := by
  unfold Instance.edit; split <;> rfl

@[simp] theorem edit_identity (i : Instance) (e : Edit) : (i.edit e).identity = i.identity := by
  unfold Instance.edit; split <;> rfl

@[simp] theorem core_edit (m : Machine) (id : Nat) (i : Instance) (e : Edit) :
    (m.edit id i e).core = m.core := by
  rw [edit, core_modify _ _ _ (edit_slot · e) (edit_identity · e)]
  split <;> rfl

@[simp] theorem core_write (m : Machine) (item : Uuid) (d : Bytes) :
    (m.write item d).1.core = m.core := by
  unfold write
  simp only
  split
  · rfl
  · split
    · rfl
    · split
      · split <;> rfl
      · rfl

@[simp] theorem core_remove (m : Machine) (item : Uuid) : (m.remove item).1.core = m.core := by
  unfold remove
  simp only
  split
  · rfl
  · split <;> rfl

/-! ## Turns and saves -/

@[simp] theorem core_switchState (m : Machine) (id : Nat) (e : Event) :
    (m.switchState id e).1.core = m.core := by
  unfold switchState; split <;> rfl

@[simp] theorem core_enter (m : Machine) (i : Instance) (v : Invocation) :
    (m.enter i v).1.core = m.core := by
  unfold enter
  simp only
  split <;> simp [Instance.countRun]

@[simp] theorem core_act (m : Machine) (i : Instance) (v : Invocation) (l : List Action) :
    (m.act i v l).1.core = m.core := by
  cases l with
  | nil => rfl
  | cons a rest =>
    cases a <;> simp only [act] <;> (try split) <;> simp

@[simp] theorem core_conclude (m : Machine) (v : Invocation) (o : Outcome) :
    (m.conclude v o).1.core = m.core := by
  cases o <;> rfl

@[simp] theorem core_takeDeleteHook (m : Machine) : m.takeDeleteHook.1.core = m.core := by
  unfold takeDeleteHook; split <;> rfl

@[simp] theorem core_takeMessageHook (m : Machine) : m.takeMessageHook.1.core = m.core := by
  unfold takeMessageHook; split <;> rfl

@[simp] theorem core_selfDelete (m : Machine) (id : Nat) (i : Instance) :
    (m.selfDelete id i).1.core = m.core := by
  unfold selfDelete
  simp only
  split <;> simp

@[simp] theorem core_showFault (m : Machine) (i : Instance) (f : Fault) :
    (m.showFault i f).1.core = m.core := by
  unfold showFault
  simp only
  split <;> simp

@[simp] theorem core_save (m : Machine) (id : Nat) (i : Instance) (s : Saving) :
    (m.save id i s).1.core = m.core := by
  cases s <;> simp only [save] <;> (try split) <;> simp

@[simp] theorem core_startFresh (m : Machine) (id : Nat) (l : Loading) (path : String) :
    (m.startFresh id l path).1.core = m.core := by
  unfold startFresh
  simp only
  split <;> rfl

@[simp] theorem core_recoverSize (m : Machine) (id : Nat) (i : Instance) (l : Loading) :
    (m.recoverSize id i l).1.core = m.core := by
  unfold recoverSize
  split
  · simp
  · split <;> simp
  · simp

@[simp] theorem core_recoverRead (m : Machine) (id : Nat) (i : Instance) (l : Loading) :
    (m.recoverRead id i l).1.core = m.core := by
  unfold recoverRead
  split
  · simp
  · split <;> simp

/-! ## Sections about a slot -/

section Slots

variable {m : Machine} {id : Nat} {i : Instance}

/-- Asking for a turn, once a section has made something else of the slot. -/
theorem core_requestTurn {n : Machine} {s : Slot} (hid : id < m.core.slots.length)
    (h : n.core = m.core.revise id ⟨s, false⟩) :
    (n.requestTurn id).core = m.core.revise id ⟨s, true⟩ := by
  have hn : n.core.slots[id]? = some s := by simp [h, Core.revise, hid]
  have hj : n.jobs = m.jobs := by
    have := congrArg Core.jobs h
    simpa [Core.revise, core] using this
  obtain ⟨i, hi, rfl⟩ := exists_get? hn
  have e : ∀ J, ({ n with jobs := J } : Machine).core = { n.core with jobs := J } := fun _ => rfl
  have ho := core_modify_slot
    (m := { n with jobs := n.jobs ++ [⟨id, i.slot.lastTicket + 1, .queued, false⟩] }) hn
    (·.occupy (n.jobs.length + 1)) (·.ask (n.jobs.length + 1)) (fun _ => rfl) (fun _ => rfl)
  unfold requestTurn
  simp only [hi, core_note, core_count]
  rw [ho, e, h, hj]
  simp [Core.revise, core]

theorem core_start (h : m.get? id = some i) :
    (m.start id i).core = m.core.revise id i.slot.start := by
  have hs := slot_of_get? h
  have hid := (List.getElem?_eq_some_iff.mp hs).1
  have hr := core_modify_slot hs (·.setRunning true) (fun s => { s with running := true })
    (fun _ => rfl) (fun _ => rfl)
  unfold start Slot.start
  cases i.slot.running with
  | true => exact (Core.revise_self hs).symm
  | false =>
    simp only [Bool.false_eq_true, if_false]
    cases i.slot.queue.isEmpty with
    | true => simpa using hr
    | false =>
      cases i.slot.current.isNone with
      | true => simpa using core_requestTurn hid hr
      | false => simpa using hr

theorem core_post (h : m.get? id = some i) (e : Event) :
    (m.post id i e).1.core = m.core.revise id (i.slot.post e) := by
  have hs := slot_of_get? h
  have hid := (List.getElem?_eq_some_iff.mp hs).1
  have hr := core_modify_slot hs (·.setQueue (i.slot.queue.push e).1)
    (fun s => { s with queue := (i.slot.queue.push e).1 }) (fun _ => rfl) (fun _ => rfl)
  unfold post Slot.post
  by_cases hrun : i.slot.running = true
  · rw [if_neg (by simp [hrun]), if_pos hrun]
    simp only [core_count]
    cases (i.slot.queue.push e).2.isAccepted && i.slot.current.isNone with
    | true => exact core_requestTurn hid hr
    | false => exact hr
  · rw [if_pos (by simp [hrun]), if_neg hrun]
    exact (Core.revise_self hs).symm

theorem core_endStop (h : m.get? id = some i) (turn : Turn) :
    (m.endStop id i turn).core = m.core.revise id (i.slot.giveUp turn.ticket) := by
  have hs := slot_of_get? h
  have hid := (List.getElem?_eq_some_iff.mp hs).1
  have hr := core_modify_slot hs (fun i => i.release.clearSnapshot)
    (fun s => { s with current := none }) (fun _ => rfl) (fun _ => rfl)
  unfold endStop Slot.giveUp Instance.owns
  cases i.slot.owns turn.ticket with
  | false => exact (Core.revise_self hs).symm
  | true =>
    simp only [if_true]
    cases i.slot.hasWork with
    | true => simpa using core_requestTurn hid hr
    | false => simpa using hr

theorem core_finishTurn (h : m.get? id = some i) (ticket : Nat) :
    (m.finishTurn id i ticket).core = m.core.revise id (i.slot.handOn ticket) := by
  have hs := slot_of_get? h
  have hid := (List.getElem?_eq_some_iff.mp hs).1
  have hc : (m.modify id Instance.clearSnapshot).core = m.core :=
    core_modify _ _ _ (fun _ => rfl) (fun _ => rfl)
  unfold finishTurn Slot.handOn Instance.owns
  cases i.slot.owns ticket with
  | false => simpa using (Core.revise_self hs).symm
  | true =>
    simp only [if_true]
    cases i.slot.hasWork with
    | true => simpa using core_requestTurn hid (hc.trans (Core.revise_self hs).symm)
    | false =>
      have hs' := hs
      rw [← hc] at hs'
      have := core_modify_slot hs' Instance.release (fun s => { s with current := none })
        (fun _ => rfl) (fun _ => rfl)
      simpa [hc] using this

theorem core_cancel (m : Machine) (n : Nat) :
    (m.cancel n).core = if m.canCancel n then m.core.rephase n .cancelled else m.core := by
  unfold cancel
  simp only
  split <;> rfl

end Slots

end Machine

end ScriptHost
