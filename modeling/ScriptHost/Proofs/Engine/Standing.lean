import ScriptHost.Proofs.Engine.Booking
import ScriptHost.Proofs.Engine.Alone
import ScriptHost.Proofs.Engine.Surroundings

/-!
# Instances that stand on their own

What can be relied on about an instance when nothing but one thread goes on,
and no collaborator calls back: its slot is in order, and so is the job of its
outstanding turn (`Machine.Stands`). Between turns, and between the end of a
handler and the end of its turn, it is also free: nobody holds the script, and
no edit is kept back that would change its variables (`Machine.Free`).
-/

namespace ScriptHost

/-- Sections that neither begin anything nor are about the slots. -/
def Instr.minor : Instr → Bool
  | .op _ | .load _ | .run _ _ => false
  | a => a.silent

namespace Machine

/-- A minor section leaves the core alone. -/
theorem core_exec {m : Machine} (r : Reply) {a : Instr} (h : a.minor = true) :
    (a.exec m r).machine.core = m.core := by
  have e := effect_exec m r a
  generalize (a.exec m r).machine.core = c, (a.exec m r).next = next at e
  cases e with
  | fresh => rfl
  | _ => first | rfl | cases h

end Machine

/-! ## Slots in order -/

/-- No work waits without a turn, a turn is outstanding only while the instance runs, and its job
has come to no end and has not been interrupted. -/
structure Core.Orderly (c : Core) (s : Slot) : Prop where
  busy : s.hasWork = true → s.current ≠ none
  running : s.current ≠ none → s.running = true
  job : ∀ turn, s.current = some turn →
    ∃ j, c.job? turn.job = some j ∧ j.finished = false ∧ j.interrupted = false

namespace Core.Orderly

variable {c c' : Core} {s : Slot} {id : Nat}

theorem congr (O : c.Orderly s) (h : c'.jobs = c.jobs) : c'.Orderly s :=
  ⟨O.busy, O.running, fun turn ht => by
    obtain ⟨j, hj, hf⟩ := O.job turn ht
    exact ⟨j, by rw [← hj, job?, job?, h], hf⟩⟩

/-- Nothing is outstanding and nothing is to be run. -/
theorem of_rest (hw : s.hasWork = false) (hc : s.current = none) : c.Orderly s :=
  ⟨fun h => absurd (hw.symm.trans h) Bool.false_ne_true, fun h => absurd hc h,
    fun turn ht => by cases hc.symm.trans ht⟩

theorem revise (O : c.Orderly s) {r : Revision} (sound : s.Sound r)
    (up : r.asks = true ∨ r.slot.current ≠ none → r.slot.running = true) :
    (c.revise id r).Orderly (if r.asks then r.slot.ask (c.jobs.length + 1) else r.slot) := by
  cases ha : r.asks with
  | true =>
    refine ⟨fun _ => by simp [Slot.ask], fun _ => up (.inl ha), fun turn ht => ?_⟩
    simp only [if_true, Slot.ask, Option.some.injEq] at ht
    subst ht
    exact ⟨_, by rw [job?_revise, if_pos ⟨ha, rfl⟩], rfl, rfl⟩
  | false =>
    refine ⟨sound.busy O.busy ha, fun h => up (.inr h), fun turn ht => ?_⟩
    rcases sound.current with hc | hc
    · obtain ⟨j, hj, hf⟩ := O.job turn (hc ▸ ht)
      exact ⟨j, job?_revise_of_some hj, hf⟩
    · cases hc.symm.trans ht

/-- A job comes into another phase, which for the job of the outstanding turn is no end. -/
theorem rephase (O : c.Orderly s) {n : Nat} {p : Phase} (hn : 0 < n)
    (h : ∀ turn, s.current = some turn → turn.job = n → p ≠ .done ∧ p ≠ .cancelled) :
    (c.rephase n p).Orderly s :=
  ⟨O.busy, O.running, fun turn ht => by
    obtain ⟨j, hj, hf, hi⟩ := O.job turn ht
    refine ⟨_, by rw [job?_rephase hn, hj]; rfl, ?_⟩
    split
    · next hk =>
      obtain ⟨hd, hc⟩ := h turn ht hk
      exact ⟨by simp [Job.finished, hd, hc], hi⟩
    · exact ⟨hf, hi⟩⟩

end Core.Orderly

/-! ## Standing and free instances -/

/-- The instance is there with its slot in order, and no collaborator calls back. -/
structure Machine.Stands (m : Machine) (id : Nat) (i : Instance) : Prop where
  here : m.get? id = some i
  unhooked : m.hooks = ([], [], [])
  orderly : m.core.Orderly i.slot

/-- Besides, nobody holds the script, and what others see of its variables is what the next turn
will begin with. -/
structure Machine.Free (m : Machine) (id : Nat) (i : Instance) : Prop extends
    m.Stands id i where
  unheld : i.held = false
  settled : i.settle.live = i.vars

/-- What a section makes of an instance whose slot afterwards is known. -/
theorem Machine.get?_exec_of_slot {m : Machine} {id : Nat} {i : Instance} (r : Reply) (a : Instr)
    (hi : m.get? id = some i) {s : Slot} (hs : (a.exec m r).machine.core.slots[id]? = some s) :
    ∃ p, (a.exec m r).machine.get? id = some { a.alter id i with slot := s, startParam := p } := by
  obtain ⟨s', p, hg⟩ := get?_exec r a hi
  have := slot_of_get? hg
  rw [hs] at this
  cases this
  exact ⟨p, hg⟩

/-- The section is no operation, and leaves slots and jobs as they are. -/
structure Instr.Still (a : Instr) : Prop where
  ne_op : ∀ o, a ≠ .op o
  slots : ∀ m r, (a.exec m r).machine.core.slots = m.core.slots
  jobs : ∀ m r, (a.exec m r).machine.core.jobs = m.core.jobs

theorem Instr.Still.of_minor {a : Instr} (h : a.minor = true) : a.Still where
  ne_op o ho := by subst ho; cases h
  slots m r := by rw [Machine.core_exec r h]
  jobs m r := by rw [Machine.core_exec r h]

namespace Machine.Stands

variable {m : Machine} {id : Nat} {i : Instance} {a : Instr}

/-- A section that makes a revision of the slot. -/
theorem revise (F : m.Stands id i) (r : Reply) (ho : ∀ o, a ≠ .op o) {v : Revision}
    (hc : (a.exec m r).machine.core = m.core.revise id v) (sound : i.slot.Sound v)
    (up : v.asks = true ∨ v.slot.current ≠ none → v.slot.running = true) :
    ∃ p, (a.exec m r).machine.Stands id { a.alter id i with
      slot := if v.asks then v.slot.ask (m.core.jobs.length + 1) else v.slot, startParam := p } := by
  obtain ⟨p, hg⟩ := get?_exec_of_slot r a F.here
    (by rw [hc, Core.slots_revise (slot_of_get? F.here), if_pos rfl])
  exact ⟨p, hg, hooks_exec F.unhooked r ho, hc ▸ F.orderly.revise sound up⟩

theorem still (F : m.Stands id i) (r : Reply) (h : a.Still) :
    ∃ p, (a.exec m r).machine.Stands id { a.alter id i with slot := i.slot, startParam := p } := by
  obtain ⟨p, hg⟩ := get?_exec_of_slot r a F.here (by rw [h.slots]; exact slot_of_get? F.here)
  exact ⟨p, hg, hooks_exec F.unhooked r h.ne_op, F.orderly.congr (h.jobs m r)⟩

/-- The job of the outstanding turn. -/
theorem not_interrupted (F : m.Stands id i) {turn : Turn} (h : i.slot.current = some turn) :
    m.interrupted turn.job = false ∧ m.finished turn.job = false := by
  obtain ⟨j, hj, hf, hi⟩ := F.orderly.job turn h
  have : m.job? turn.job = some j := hj
  simp only [interrupted, finished, this]
  exact ⟨hi, hf⟩

end Machine.Stands

end ScriptHost
