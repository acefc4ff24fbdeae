import ScriptHost.Proofs.Engine.Core
import ScriptHost.Proofs.Engine.Leading

/-!
# What a section does

`Effect m a c next`: the section `a`, done on `m`, may leave the core `c` and
the sections `next` to be done before all others. `effect_exec` says that
every section does one of these things; facts about runs are read off it and
never look at `exec` again.

Most sections only lead to sections that ask nothing of the state they are
found in (`Instr.light`), so that nothing more needs to be known of them.
-/

namespace ScriptHost

namespace Instr

/-- Sections that ask nothing of the state in which they are done. -/
def light : Instr → Bool
  | .start _ | .stopWait _ _ _ | .stopWaited _ _ _ _ | .stopCheck _ _ _ | .stopAbort _ _
  | .reset _ | .recoverSize _ _ | .recoverRead _ _ | .refill _ _ | .register _ | .loaded _ _ _
  | .takeTurn _ _ _ | .readDetected _ | .lockScript _ | .enter _ | .finishTurn _ _
  | .jobDone _ => false
  | _ => true

/-- Sections that leave the core alone, operations and starts of jobs apart, and lead to light
ones only. -/
def silent : Instr → Bool
  | .stop _ _ | .stopEnd _ _ | .post _ _ | .clearQueue _ => false
  | .enter _ => true
  | a => a.light

/-- The instance without which a section does nothing. -/
def subject? : Instr → Option Nat
  | .start id | .stop id _ | .stopCheck id _ _ | .stopAbort id _ | .stopEnd id _ | .post id _
  | .clearQueue id | .reset id | .recoverSize id _ | .recoverRead id _ | .refill id _
  | .register id | .takeTurn id _ _ | .finishTurn id _ => some id
  | .readDetected v => some v.id
  | _ => none

end Instr

inductive Effect (m : Machine) : Instr → Core → List Instr → Prop where
  | silent {a : Instr} {next : List Instr} : a.silent = true →
      (∀ b ∈ next, b.light = true) → Effect m a m.core next
  | absent {a : Instr} {id : Nat} : a.subject? = some id → m.get? id = none →
      Effect m a m.core []
  -- operations
  | callStart {o : Op} {id : Nat} : m.core.Named id → Effect m (.op o) m.core [.start id]
  | callReset {o : Op} {id : Nat} : m.core.Named id →
      Effect m (.op o) m.core [.reset id, .answer .nothing]
  | unregister {o : Op} {item : Uuid} {id ms : Nat} {next : List Instr} :
      m.core.registered.lookup item = some id → (∀ b ∈ next, b.light = true) →
      Effect m (.op o) (m.core.unregister item) (.stop id ms :: next)
  | reset {id : Nat} {running : Bool} : Effect m (.reset id) m.core (Instr.resetAll id running)
  -- the state machine of an instance
  | start {id : Nat} {s : Slot} : m.core.slots[id]? = some s →
      Effect m (.start id) (m.core.revise id s.start) []
  | post {id : Nat} {e : Event} {s : Slot} : m.core.slots[id]? = some s →
      Effect m (.post id e) (m.core.revise id (s.post e)) []
  | clear {id : Nat} {s : Slot} : m.core.slots[id]? = some s →
      Effect m (.clearQueue id) (m.core.revise id ⟨{ s with queue := s.queue.clear }, false⟩) []
  | refill {id : Nat} {l : List Event} {s : Slot} : m.core.slots[id]? = some s →
      Effect m (.refill id l)
        (m.core.revise id ⟨{ s with queue := s.queue.pushAll l }, false⟩) []
  -- stops
  | halt {id ms : Nat} {s : Slot} : m.core.slots[id]? = some s →
      s.running = false ∨ s.current = none →
      Effect m (.stop id ms) (m.core.revise id ⟨s.halt false, false⟩) []
  | cancel {id ms : Nat} {s : Slot} {turn : Turn} : m.core.slots[id]? = some s →
      s.running = true → s.current = some turn → m.canCancel turn.job = true →
      Effect m (.stop id ms)
        ((m.core.rephase turn.job .cancelled).revise id ⟨s.halt true, false⟩) []
  | await {id ms : Nat} {s : Slot} {turn : Turn} : m.core.slots[id]? = some s →
      s.running = true → s.current = some turn → m.canCancel turn.job = false →
      Effect m (.stop id ms) (m.core.revise id ⟨s.halt false, false⟩) [.stopWait id ms turn]
  | wait {id ms : Nat} {turn : Turn} {ops : List Op} {forced : Option Bool} :
      Effect m (.stopWait id ms turn) m.core
        (Instr.nested ops ++ [.stopWaited id ms turn forced])
  | waited {id ms : Nat} {turn : Turn} {forced : Option Bool} :
      forced.getD (m.finished turn.job) = true →
      Effect m (.stopWaited id ms turn forced) m.core []
  | overdue {id ms : Nat} {turn : Turn} {forced : Option Bool} :
      forced.getD (m.finished turn.job) = false →
      Effect m (.stopWaited id ms turn forced) m.core [.stopCheck id ms turn]
  | passed {id ms : Nat} {turn : Turn} {s : Slot} : m.core.slots[id]? = some s →
      s.owns turn.ticket = false → Effect m (.stopCheck id ms turn) m.core []
  | check {id ms : Nat} {turn : Turn} {s : Slot} : m.core.slots[id]? = some s →
      s.owns turn.ticket = true →
      Effect m (.stopCheck id ms turn) m.core [.stopAbort id turn, .stopEnd id turn]
  | spare {id : Nat} {turn : Turn} : Effect m (.stopAbort id turn) m.core []
  | trip {id : Nat} {turn : Turn} : Effect m (.stopAbort id turn) (m.core.trip turn.job) []
  | takeBack {id : Nat} {turn : Turn} {j : Job} : m.abortsRunning = true →
      m.core.job? turn.job = some j → j.phase = .queued →
      Effect m (.stopAbort id turn) (m.core.rephase turn.job .cancelled) []
  | giveUp {id : Nat} {turn : Turn} {s : Slot} : m.core.slots[id]? = some s →
      Effect m (.stopEnd id turn) (m.core.revise id (s.giveUp turn.ticket)) []
  -- loading
  | create {l : Loading} :
      Effect m (.load l) (m.core.create l) [.recoverSize m.core.slots.length l]
  | found {id : Nat} {l : Loading} : Effect m (.recoverSize id l) m.core [.recoverRead id l]
  | fresh {a : Instr} {id : Nat} {l : Loading} : a = .recoverSize id l ∨ a = .recoverRead id l →
      Effect m a m.core (Instr.freshStart id l.request ++ Instr.finishLoad id l)
  | restore {id : Nat} {l : Loading} {d : Document} :
      Effect m (.recoverRead id l) m.core
        (Instr.restore id l.request d ++ Instr.finishLoad id l)
  | register {id : Nat} {i : Identity} : m.core.identities[id]? = some i →
      Effect m (.register id) (m.core.enter i.item id) []
  | loaded {id place : Nat} {name : String} :
      Effect m (.loaded id name place) (m.core.enlist name id place) []
  -- turns
  | run {turns ran n : Nat} {j : Job} : m.core.job? n = some j → j.phase = .queued →
      Effect m (.run (turns + 1) ran) (m.core.rephase n .running)
        [.takeTurn j.owner j.ticket n, .jobDone n, .run turns (ran + 1)]
  | stale {id ticket n : Nat} {s : Slot} : m.core.slots[id]? = some s →
      s.owns ticket = false → Effect m (.takeTurn id ticket n) m.core []
  | idle {id ticket n : Nat} {s : Slot} : m.core.slots[id]? = some s →
      s.owns ticket = true → s.queue.events = [] →
      Effect m (.takeTurn id ticket n) (m.core.revise id ⟨{ s with current := none }, false⟩) []
  | takeSwitch {id ticket n : Nat} {s : Slot} {e : Event} {rest : Queue} {next : List Instr} :
      m.core.slots[id]? = some s → s.owns ticket = true → s.queue.pop? = some (e, rest) →
      e.isSetState = true → (∀ b ∈ next, b.light = true) →
      Effect m (.takeTurn id ticket n) (m.core.revise id ⟨{ s with queue := rest }, false⟩)
        (next ++ [.finishTurn id ticket])
  | take {id ticket n : Nat} {s : Slot} {e : Event} {rest : Queue} :
      m.core.slots[id]? = some s → s.owns ticket = true → s.queue.pop? = some (e, rest) →
      e.isSetState = false →
      Effect m (.takeTurn id ticket n) (m.core.revise id ⟨{ s with queue := rest }, false⟩)
        [.readDetected ⟨id, ticket, n, e, "", [], []⟩, .finishTurn id ticket]
  | read {v : Invocation} {l : List Detection} :
      Effect m (.readDetected v) m.core [.lockScript { v with detected := l }]
  | lock {v : Invocation} : Effect m (.lockScript v) m.core [.settle v.id, .enter v]
  | handOn {id ticket : Nat} {s : Slot} : m.core.slots[id]? = some s →
      Effect m (.finishTurn id ticket) (m.core.revise id (s.handOn ticket)) []
  | done {n : Nat} : Effect m (.jobDone n) (m.core.rephase n .done) []

namespace Instr

theorem light_nested {ops : List Op} : ∀ b ∈ nested ops, b.light = true :=
  forall_nested (P := (·.light = true)) (fun _ => rfl) (fun _ => rfl) rfl ops

/-- Light sections, and those with which a load brings its instance up. -/
def bringsUp (id : Nat) : Instr → Bool
  | .start n | .refill n _ => n == id
  | a => a.light

theorem bringsUp_of_light (id : Nat) {a : Instr} (h : a.light = true) :
    a.bringsUp id = true := by
  cases a <;> first | exact h | cases h

theorem bringsUp_freshStart {id : Nat} {r : LoadRequest} :
    ∀ b ∈ freshStart id r, b.bringsUp id = true :=
  forall_freshStart (P := (·.bringsUp id = true)) (beq_self_eq_true id) (fun _ => rfl) r

theorem bringsUp_restore {id : Nat} {r : LoadRequest} {d : Document} :
    ∀ b ∈ restore id r d, b.bringsUp id = true :=
  forall_restore (P := (·.bringsUp id = true)) (beq_self_eq_true id) (fun _ => rfl) (fun _ => rfl) (fun _ => rfl) (fun _ => rfl)
    (fun _ => beq_self_eq_true id) (fun _ _ => rfl) r d

theorem light_request {id : Nat} {r : Request} : ∀ b ∈ request id r, b.light = true :=
  forall_request (P := (·.light = true)) (fun _ => rfl) rfl rfl rfl rfl rfl rfl rfl r

/-- Silent sections that lead to light ones whatever they find. -/
def faint : Instr → Bool
  | .op _ | .load _ | .run _ _ => false
  | a => a.silent

theorem silent_of_faint {a : Instr} (h : a.faint = true) : a.silent = true := by
  cases a <;> first | exact h | cases h

theorem LeadsTo.light {m : Machine} {a b : Instr} (h : a.LeadsTo m b) (ha : a.faint = true) :
    b.light = true := by
  cases h with
  | request hb => exact light_request b hb
  | call hb | deleteHook hb | messageHook hb => exact light_nested b hb
  | _ => first | rfl | cases ha

end Instr

theorem Machine.light_switchState {m : Machine} {id : Nat} {e : Event} :
    ∀ b ∈ (m.switchState id e).2, b.light = true := by
  unfold switchState
  split <;> simp [Instr.light]

/-! ## Every section does one of these things -/

namespace Effect

open Instr

variable {m : Machine}

/-- A section that does nothing to the core and leads to light sections only. -/
theorem of_silent {a : Instr} {c : Core} {next : List Instr} (ha : a.silent = true)
    (hc : c = m.core) (hn : ∀ b ∈ next, b.light = true) : Effect m a c next := by
  subst hc; exact .silent ha hn

theorem of_about {a : Instr} {id : Nat} {r : Reply} {f : Instance → Machine}
    (ha : a.subject? = some id) (h : ∀ i, m.get? id = some i → Effect m a (f i).core []) :
    Effect m a (about m r id f).machine.core (about m r id f).next := by
  unfold about
  split
  · next i hi => exact h i hi
  · next hi => exact .absent ha hi

/-- A section that does nothing to the core, whatever it finds. -/
theorem of_faint {a : Instr} {r : Reply} (ha : a.faint = true)
    (hc : (a.exec m r).machine.core = m.core) :
    Effect m a (a.exec m r).machine.core (a.exec m r).next :=
  of_silent (silent_of_faint ha) hc fun b hb => (m.leadsTo r a b hb).light ha

theorem core_about {id : Nat} {r : Reply} {f : Instance → Machine}
    (h : ∀ i, (f i).core = m.core) : (about m r id f).machine.core = m.core := by
  unfold about
  split
  · exact h _
  · rfl

theorem core_leads {id : Nat} {r : Reply} {f : Instance → Machine × List Instr}
    (h : ∀ i, (f i).1.core = m.core) : (leads m r id f).machine.core = m.core := by
  unfold leads
  split
  · exact h _
  · rfl

theorem of_modify {a : Instr} {id : Nat} {f : Instance → Instance} (ha : a.subject? = some id)
    (g : Slot → Slot) (hg : ∀ i, (f i).slot = g i.slot) (hf : ∀ i, (f i).identity = i.identity)
    (h : ∀ s, m.core.slots[id]? = some s → Effect m a (m.core.revise id ⟨g s, false⟩) []) :
    Effect m a (m.modify id f).core [] := by
  cases hi : m.get? id with
  | none =>
    have : m.modify id f = m := by
      unfold Machine.modify
      rw [List.modify_eq_self (by simpa [Machine.get?] using hi)]
    rw [this]
    exact .absent ha hi
  | some i =>
    have hs := Machine.slot_of_get? hi
    rw [Machine.core_modify_slot hs f g hg hf]
    exact h _ hs

theorem of_leads {a : Instr} {id : Nat} {r : Reply} {f : Instance → Machine × List Instr}
    (ha : a.subject? = some id)
    (h : ∀ i, m.get? id = some i → Effect m a (f i).1.core (f i).2) :
    Effect m a (leads m r id f).machine.core (leads m r id f).next := by
  unfold leads
  split
  · next i hi => exact h i hi
  · next hi => exact .absent ha hi

theorem of_stop (ms : Nat) {id : Nat} {i : Instance} (hi : m.get? id = some i) :
    Effect m (.stop id ms) (m.beginStop id i).1.core
      (match (m.beginStop id i).2 with
        | some turn => [.stopWait id ms turn]
        | none => []) := by
  have hs := Machine.slot_of_get? hi
  unfold Machine.beginStop
  by_cases hr : i.slot.running = true
  · rw [if_neg (by simp [hr])]
    have halt : ∀ n : Machine, n.core.slots[id]? = some i.slot →
        (n.modify id (·.setRunning false)).core =
          n.core.revise id ⟨i.slot.halt false, false⟩ := fun n hn =>
      Machine.core_modify_slot hn _ (·.halt false) (fun _ => rfl) (fun _ => rfl)
    cases hc : i.slot.current with
    | none => exact halt m hs ▸ .halt hs (.inr hc)
    | some turn =>
      have hcancel := Machine.core_cancel m turn.job
      cases hj : m.canCancel turn.job with
      | true =>
        rw [hj, if_pos rfl] at hcancel
        have hs' : (m.cancel turn.job).core.slots[id]? = some i.slot := by rw [hcancel]; exact hs
        have := Machine.core_modify_slot hs' (fun i => i.release.setRunning false) (·.halt true)
          (fun _ => rfl) (fun _ => rfl)
        rw [hcancel] at this
        simp only [hj, if_true, this]
        exact .cancel hs hr hc hj
      | false =>
        rw [hj, if_neg Bool.false_ne_true] at hcancel
        have := halt (m.cancel turn.job) (by rw [hcancel]; exact hs)
        rw [hcancel] at this
        simp only [hj, Bool.false_eq_true, if_false, this]
        exact .await hs hr hc hj
  · have hf : i.slot.running = false := by simpa using hr
    rw [if_pos (by simp [hf])]
    have : Effect m (.stop id ms) (m.core.revise id ⟨i.slot.halt false, false⟩) [] :=
      .halt hs (.inl hf)
    rwa [Slot.halt_of_stopped hf, Core.revise_self hs] at this

theorem of_named {name : String} {id : Nat} (h : m.named? name = some id) : m.core.Named id := by
  unfold Machine.named? at h
  obtain ⟨p, hp, rfl⟩ := Option.map_eq_some_iff.mp h
  exact List.mem_map_of_mem (List.mem_reverse.mp (List.mem_of_find?_eq_some hp))

theorem of_onInstance {id : Nat} {i : Instance} (hn : m.core.Named id) (o : Op) :
    Effect m (.op o) (m.onInstance id i o).1.core (m.onInstance id i o).2.1 := by
  cases o with
  | start => exact .callStart hn
  | reset => exact .callReset hn
  | setStartParam t v =>
    exact of_silent rfl (Machine.core_modify _ _ _ (fun _ => rfl) (fun _ => rfl)) (by simp [Machine.onInstance])
  | _ =>
    refine of_silent rfl rfl ?_
    simp [Machine.onInstance, light, setState, apiReset, revokeGrants]

theorem of_loadReplacing {o : Op} (l : Loading) :
    Effect m (.op o) (m.loadReplacing l).1.core (m.loadReplacing l).2 := by
  unfold Machine.loadReplacing
  simp only
  split
  · exact of_silent rfl rfl (by simp [light])
  · next old h => exact .unregister h (by simp [light])

theorem of_removeScript {o : Op} (item : Uuid) :
    Effect m (.op o) (m.removeScript item).1.core (m.removeScript item).2 := by
  unfold Machine.removeScript
  split
  · exact of_silent rfl rfl (by simp [light])
  · next id h => exact .unregister h (by simp [light])

theorem of_onEngine (o : Op) :
    Effect m (.op o) (m.onEngine o).1.core (m.onEngine o).2.1 := by
  cases o with
  | load name request program direct =>
    cases direct with
    | none => exact of_loadReplacing _
    | some limits => exact of_silent rfl rfl (by simp [Machine.onEngine, light])
  | remove item => exact of_removeScript item
  | postItem item e =>
    simp only [Machine.onEngine]
    split <;> exact of_silent rfl rfl (by simp [light])
  | stopAll =>
    refine of_silent rfl rfl fun b hb => ?_
    simp only [Machine.onEngine, List.mem_append, List.mem_map, List.mem_singleton] at hb
    rcases hb with ⟨p, -, rfl⟩ | rfl <;> rfl
  | pad item more least =>
    refine of_silent rfl ?_ (by simp [Machine.onEngine])
    simp only [Machine.onEngine, Machine.padDocument]
    split <;> rfl
  | store query item =>
    refine of_silent rfl ?_ (by simp [Machine.onEngine])
    cases query <;> simp [Machine.onEngine, Machine.storeReply]
  | _ => exact of_silent rfl rfl (by simp [Machine.onEngine, light])

theorem of_op (o : Op) : Effect m (.op o) (m.perform o).1.core (m.perform o).2.1 := by
  unfold Machine.perform
  split
  · exact of_onEngine o
  · split
    · exact of_silent rfl rfl (by simp)
    · next id hid =>
      split
      · exact of_silent rfl rfl (by simp)
      · exact of_onInstance (of_named hid) o

theorem of_stopAbort {id : Nat} {i : Instance} (turn : Turn) :
    Effect m (.stopAbort id turn) (m.forceAbort i turn).core [] := by
  unfold Machine.forceAbort
  split
  · exact .spare
  · rw [Machine.core_count]
    unfold Machine.abort
    simp only
    split
    · exact .trip
    · next ha =>
      split
      · next hp =>
        obtain ⟨j, hj, hq⟩ := Option.map_eq_some_iff.mp hp
        exact .takeBack (by simpa [Machine.log, Machine.note] using ha) hj hq
      · exact .trip
      · exact .spare

theorem queued_of_oldest {n : Nat} {j : Job} (hn : m.oldestQueued? = some n)
    (hj : m.job? n = some j) : j.phase = .queued := by
  obtain ⟨k, hk, rfl⟩ := Option.map_eq_some_iff.mp hn
  obtain ⟨hlt, hp, -⟩ := List.findIdx?_eq_some_iff_getElem.mp hk
  have : m.jobs[k] = j := by simpa [Machine.job?, hlt] using hj
  simpa [this] using hp

theorem of_run (turns ran : Nat) :
    Effect m (.run turns ran) (m.run turns ran).1.core (m.run turns ran).2.1 := by
  unfold Machine.run
  split
  · exact of_silent rfl rfl (by simp)
  · exact of_silent rfl rfl (by simp)
  · next turns n hn =>
    split
    · exact of_silent rfl rfl (by simp)
    · next j hj =>
      split
      · exact of_silent rfl rfl (by simp)
      · exact .run hj (queued_of_oldest hn hj)

theorem of_takeTurn (ticket n : Nat) {id : Nat} {i : Instance} (hi : m.get? id = some i) :
    Effect m (.takeTurn id ticket n) (m.takeTurn id i ticket n).1.core
      (m.takeTurn id i ticket n).2 := by
  have hs := Machine.slot_of_get? hi
  unfold Machine.takeTurn
  split
  · next ho =>
    split
    · next hp =>
      have hq : i.slot.queue.events = [] := by
        unfold Queue.pop? at hp; split at hp
        · assumption
        · cases hp
      have := Machine.core_modify_slot hs Instance.release (fun s => { s with current := none })
        (fun _ => rfl) (fun _ => rfl)
      exact this ▸ .idle hs ho hq
    · next e rest hp =>
      have hc := Machine.core_modify_slot hs (·.take e rest) (fun s => { s with queue := rest })
        (fun _ => rfl) (fun _ => rfl)
      simp only
      split
      · next he =>
        rw [Machine.core_switchState, hc]
        exact .takeSwitch hs ho hp he Machine.light_switchState
      · next he => exact hc ▸ .take hs ho hp (by simpa using he)
  · next ho => exact .stale hs (by simpa [Instance.owns] using ho)

theorem of_load (l : Loading) :
    Effect m (.load l) (m.load l).1.core (m.load l).2.1 := by
  unfold Machine.load
  simp only
  split
  · exact of_silent rfl rfl (by simp)
  · have := Effect.create (m := m) (l := l)
    have e1 : m.core.slots.length = m.instances.length := by simp [Machine.core, Machine.slots]
    have e2 : m.core.create l = { m.core with
      identities := m.identities ++ [l.request.identity]
      slots := m.slots ++ [⟨.empty l.limits.queueCapacity, false, none, 0⟩] } := rfl
    rw [e1, e2] at this
    simpa [Machine.core, Machine.identities, Machine.slots, Instance.create] using this

theorem of_recoverSize {id : Nat} {i : Instance} (l : Loading) :
    Effect m (.recoverSize id l) (m.recoverSize id i l).1.core (m.recoverSize id i l).2 := by
  rw [Machine.core_recoverSize]
  unfold Machine.recoverSize
  split
  · exact .fresh (.inl rfl)
  · split
    · exact .fresh (.inl rfl)
    · exact .found
  · exact .fresh (.inl rfl)

theorem of_recoverRead {id : Nat} {i : Instance} (l : Loading) :
    Effect m (.recoverRead id l) (m.recoverRead id i l).1.core (m.recoverRead id i l).2 := by
  rw [Machine.core_recoverRead]
  unfold Machine.recoverRead
  split
  · exact .fresh (.inr rfl)
  · split
    · exact .fresh (.inr rfl)
    · exact .restore

end Effect

theorem effect_exec (m : Machine) (r : Reply) (a : Instr) :
    Effect m a (a.exec m r).machine.core (a.exec m r).next := by
  cases a with
  | op o => exact .of_op o
  | stop id ms => exact .of_leads rfl fun i hi => .of_stop ms hi
  | stopWait id ms turn =>
    simp only [Instr.exec]
    split
    · exact @Effect.wait m id ms turn [] none
    · exact .wait
  | stopWaited id ms turn forced =>
    simp only [Instr.exec]
    split
    · next h => exact .waited h
    · next h => exact .overdue (by simpa using h)
  | stopCheck id ms turn =>
    refine .of_leads rfl fun i hi => ?_
    simp only
    split
    · next h => exact .check (Machine.slot_of_get? hi) h
    · next h => exact .passed (Machine.slot_of_get? hi) (by simpa [Instance.owns] using h)
  | stopAbort id turn => exact .of_about rfl fun i _ => .of_stopAbort turn
  | stopEnd id turn =>
    exact .of_about rfl fun i hi =>
      Machine.core_endStop hi turn ▸ .giveUp (Machine.slot_of_get? hi)
  | start id =>
    exact .of_about rfl fun i hi => Machine.core_start hi ▸ .start (Machine.slot_of_get? hi)
  | post id e =>
    simp only [Instr.exec]
    split
    · next i hi => exact Machine.core_post hi e ▸ .post (Machine.slot_of_get? hi)
    · next hi => exact @Effect.absent m _ id rfl hi
  | clearQueue id =>
    refine .of_modify rfl (fun s => { s with queue := s.queue.clear }) (fun _ => rfl)
      (fun _ => rfl) fun s hs => .clear hs
  | refill id l =>
    refine .of_modify rfl (fun s => { s with queue := s.queue.pushAll l }) (fun _ => rfl)
      (fun _ => rfl) fun s hs => .refill hs
  | reset id => exact .of_leads rfl fun i _ => .reset
  | load l => exact .of_load l
  | recoverSize id l => exact .of_leads rfl fun i _ => .of_recoverSize l
  | recoverRead id l => exact .of_leads rfl fun i _ => .of_recoverRead l
  | register id => exact .of_about rfl fun i hi => .register (by simp [Machine.identities_getElem?, hi])
  | loaded id name place => exact .loaded
  | run turns ran => exact .of_run turns ran
  | takeTurn id ticket n => exact .of_leads rfl fun i hi => .of_takeTurn ticket n hi
  | readDetected v => exact .of_leads rfl fun i _ => .read
  | lockScript v =>
    have := Machine.core_modify m v.id (fun i => { i with holder := some .handler })
      (fun _ => rfl) (fun _ => rfl)
    simp only [Instr.exec, this]
    exact .lock
  | finishTurn id ticket =>
    exact .of_about rfl fun i hi =>
      Machine.core_finishTurn hi ticket ▸ .handOn (Machine.slot_of_get? hi)
  | jobDone n => exact .done
  | noteBegin | noteReply | answer | log | count | parked | saved | posted => exact .of_faint rfl rfl
  | settle => exact .of_faint rfl (by simp [Instr.exec, Instr.plain])
  | edit => exact .of_faint rfl (Effect.core_leads fun _ => Machine.core_edit ..)
  | publishMask => exact .of_faint rfl (Effect.core_leads fun _ => Machine.core_publishMask ..)
  | replaceState | letGo | unlock =>
    exact .of_faint rfl (Machine.core_modify _ _ _ (fun _ => rfl) (fun _ => rfl))
  | deleted | delivered =>
    refine .of_faint rfl ?_
    simp only [Instr.exec, Instr.plain]
    split <;> simp
  | clearPermissions | removePlugins | importData | record =>
    exact .of_faint rfl (Effect.core_about fun _ => rfl)
  | removeState id =>
    refine .of_faint rfl (Effect.core_about fun i => ?_)
    simp only
    split <;> simp
  | stateEntryUnlessCurrent id => exact .of_faint rfl (Effect.core_leads fun _ => rfl)
  | save id s =>
    refine .of_faint rfl ?_
    simp only [Instr.exec]
    split
    · exact Machine.core_save ..
    · rfl
  | saveEach ids | postEach ids => cases ids <;> exact .of_faint rfl rfl
  | shutdownEach ids =>
    cases ids with
    | nil => exact .of_faint rfl rfl
    | cons id ids => exact .of_faint rfl (Effect.core_leads fun _ => rfl)
  | enter v => exact .of_faint rfl (Effect.core_leads fun _ => Machine.core_enter ..)
  | act v l => exact .of_faint rfl (Effect.core_leads fun _ => Machine.core_act ..)
  | applyRequests v o =>
    refine .of_faint rfl (Effect.core_leads fun i => ?_)
    split
    · rfl
    · split <;> rfl
  | conclude v o => exact .of_faint rfl (Machine.core_conclude ..)
  | selfDelete id => exact .of_faint rfl (Effect.core_leads fun _ => Machine.core_selfDelete ..)
  | showFault v f => exact .of_faint rfl (Effect.core_leads fun _ => Machine.core_showFault ..)

end ScriptHost
