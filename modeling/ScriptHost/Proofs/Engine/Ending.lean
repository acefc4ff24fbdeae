import ScriptHost.Proofs.Engine.Alone
import ScriptHost.Proofs.Engine.Figure
import ScriptHost.Proofs.Engine.Seclusion
import ScriptHost.Proofs.Engine.Surroundings

/-!
# Operations on one script come to an end

Carried out alone, on a machine on which nobody is called back, an operation on one
script ends. Its sections have an effort, and each leads to sections that are
less effort together (`under_exec`), so the effort of a thread says how long it may
still go on (`ends_of_effort`). A turn has no such measure: its handler may park,
and its script may be held by another worker.
-/

namespace ScriptHost

namespace Instr

/-- How many sections this one may still lead to, itself included; zero if there is no telling. -/
def effort : Instr → Nat
  | .op o => if o.item?.isSome then 23 else 0
  | .answer _ | .log _ _ | .count _ | .start _ | .stopAbort _ _ | .stopEnd _ _ | .post _ _
  | .clearQueue _ | .replaceState _ _ | .clearPermissions _ | .removePlugins _ | .removeState _
  | .letGo _ _ | .importData _ _ | .refill _ _ | .register _ | .loaded _ _ _
  | .save _ .verify => 1
  | .edit _ _ | .publishMask _ | .stateEntryUnlessCurrent _ | .save _ (.write _) => 2
  | .stopCheck _ _ _ | .save _ (.queue _ _ _ _) => 3
  | .stopWaited _ _ _ _ | .save _ (.plugins _ _ _) => 4
  | .stopWait _ _ _ | .save _ (.vars _ _) => 5
  | .stop _ _ | .save _ (.state _) => 6
  | .save _ .running => 7
  | .recoverRead _ _ => 14
  | .recoverSize _ _ => 15
  | .load _ => 16
  | .reset _ => 18
  | _ => 0

/-- The effort of all of them together. -/
def total : List Instr → Nat
  | [] => 0
  | x :: l => x.effort + total l

theorem total_append (l l' : List Instr) : total (l ++ l') = total l + total l' := by
  induction l with
  | nil => exact (Nat.zero_add _).symm
  | cons x l ih => rw [List.cons_append, total, total, ih, Nat.add_assoc]

/-- The sections have an effort each, and less than so much together. -/
def Under (n : Nat) (l : List Instr) : Prop :=
  (∀ x ∈ l, 0 < x.effort) ∧ total l < n

instance (n : Nat) (l : List Instr) : Decidable (Under n l) := inferInstanceAs (Decidable (_ ∧ _))

section

variable {m : Machine} {n k : Nat} {id : Nat} {r : Reply} {x : Instr} {l l' : List Instr}

theorem Under.nil (h : 0 < n) : Under n [] := ⟨List.forall_mem_nil _, h⟩

theorem Under.append (h : Under n l) (h' : Under k l') : Under (n + k - 1) (l ++ l') := by
  refine ⟨fun x hx => (List.mem_append.mp hx).elim (h.1 x) (h'.1 x), ?_⟩
  have := h.2
  have := h'.2
  rw [total_append]
  omega

theorem Under.le (h : Under n l) (hle : n ≤ k) : Under k l := ⟨h.1, Nat.lt_of_lt_of_le h.2 hle⟩

theorem under_leads {f : Instance → Machine × List Instr} (hn : 0 < n)
    (h : ∀ i, Under n (f i).2) : Under n (leads m r id f).next := by
  unfold leads
  split
  · exact h _
  · exact .nil hn

theorem under_finishLoad (id : Nat) (l : Loading) : Under 5 (finishLoad id l) := by
  unfold finishLoad
  split <;> exact of_decide_eq_true rfl

theorem under_startFresh (m : Machine) (id : Nat) (l : Loading) (path : String) :
    Under 8 (m.startFresh id l path).2 := by
  have fresh : Under 4 (freshStart id l.request) := by
    unfold freshStart
    split <;> exact of_decide_eq_true rfl
  exact fresh.append (under_finishLoad id l)

theorem under_restore (id : Nat) (q : LoadRequest) (d : Document) :
    Under 10 (restore id q d) := by
  have optional : ∀ {p : Prop} [Decidable p] (y : Instr), y.effort = 1 →
      Under 2 (if p then [y] else []) := by
    intro p _ y hy
    split
    · have one : total [y] = 1 := congrArg (· + 0) hy
      refine ⟨List.forall_mem_singleton.mpr ?_, ?_⟩ <;> omega
    · exact .nil (Nat.zero_lt_two)
  have state : Under 4 [.replaceState id d.state, .edit id (.setVars d.vars)] := by
    exact of_decide_eq_true rfl
  have plugins : Under 2 (if d.pluginData.isEmpty then [] else [.importData id d.pluginData]) := by
    split <;> exact of_decide_eq_true rfl
  have queue : Under 3 [.refill id d.queue, .log .debug "retrieved script state"] := by
    exact of_decide_eq_true rfl
  have running : Under 3 (if d.running then
      .start id :: (if q.postOnRez then [.post id (.onRez q.startParam)] else []) else []) := by
    split
    · have started : Under 2 [.start id] := of_decide_eq_true rfl
      exact started.append (optional _ rfl)
    · exact .nil (Nat.succ_pos 2)
  exact (((state.append plugins).append queue).append running).append (optional _ rfl)

theorem under_resetAll (id : Nat) (wasRunning : Bool) : Under 18 (resetAll id wasRunning) := by
  have stopped : Under 8 [.stop id 0, .removeState id] := of_decide_eq_true rfl
  have revoked : Under 3 (revokeGrants id) := of_decide_eq_true rfl
  have fresh : Under 7 [.clearQueue id, .edit id .resetVars,
      .replaceState id Instance.defaultState, .publishMask id] := of_decide_eq_true rfl
  have started : Under 2 (if wasRunning then [.start id] else []) := by
    split <;> exact of_decide_eq_true rfl
  have entered : Under 2 [.post id .stateEntry] := of_decide_eq_true rfl
  exact (((stopped.append revoked).append fresh).append started).append entered

theorem under_recoverSize (m : Machine) (id : Nat) (i : Instance) (l : Loading) :
    Under 15 (m.recoverSize id i l).2 := by
  have fresh : ∀ path, Under 15 (m.startFresh id l path).2 := fun path =>
    (under_startFresh m id l path).le (by omega)
  unfold Machine.recoverSize
  split
  · exact fresh _
  · split
    · exact fresh _
    · exact of_decide_eq_true rfl
  · exact fresh _

theorem under_recoverRead (m : Machine) (id : Nat) (i : Instance) (l : Loading) :
    Under 14 (m.recoverRead id i l).2 := by
  have fresh : ∀ path, Under 14 (m.startFresh id l path).2 := fun path =>
    (under_startFresh m id l path).le (by omega)
  unfold Machine.recoverRead
  split
  · exact fresh _
  · split
    · exact fresh _
    · exact (under_restore id l.request _).append (under_finishLoad id l)

theorem under_save (m : Machine) (id : Nat) (i : Instance) (s : Saving) :
    Under (Instr.save id s).effort (m.save id i s).2.1 := by
  cases s with
  | verify =>
    simp only [Machine.save]
    split <;> exact .nil Nat.one_pos
  | _ => exact of_decide_eq_true rfl

theorem under_load (m : Machine) (l : Loading) : Under 16 (m.load l).2.1 := by
  unfold Machine.load
  simp only
  split <;> exact of_decide_eq_true rfl

theorem under_perform (m : Machine) {o : Op} (h : o.item?.isSome) :
    Under 23 (m.perform o).2.1 := by
  cases o with
  | load name q program direct =>
    cases direct with
    | some limits => exact of_decide_eq_true rfl
    | none =>
      simp only [Machine.perform, Machine.target?, Machine.onEngine, Machine.loadReplacing]
      split <;> exact of_decide_eq_true rfl
  | postItem item e =>
    simp only [Machine.perform, Machine.target?, Machine.onEngine]
    split <;> exact of_decide_eq_true rfl
  | remove item =>
    simp only [Machine.perform, Machine.target?, Machine.onEngine, Machine.removeScript]
    split <;> exact of_decide_eq_true rfl
  | _ => cases h

/-- A section that has an effort leads to sections that have less. -/
theorem under_exec (quiet : m.hooks = ([], [], [])) (hx : 0 < x.effort) (r : Reply) :
    Under x.effort (x.exec m r).next := by
  have about : ∀ {id : Nat} {f : Instance → Machine}, Under 1 (Instr.about m r id f).next := by
    intro id f
    rw [next_about]
    exact .nil Nat.one_pos
  cases x with
  | op o =>
    change 0 < if _ then 23 else 0 at hx
    split at hx
    · next h =>
      change Under (if _ then 23 else 0) _
      rw [if_pos h]
      exact under_perform m h
    · cases hx
  | stop id ms =>
    refine under_leads hx fun i => ?_
    simp only
    split <;> exact of_decide_eq_true rfl
  | stopWait id ms turn =>
    have waits : (m.note (.wait turn.job ms)).waitHooks = [] := congrArg Prod.fst quiet
    simp only [exec, waits]
    exact of_decide_eq_true rfl
  | stopWaited id ms turn forced =>
    simp only [exec]
    split <;> exact of_decide_eq_true rfl
  | stopCheck id ms turn =>
    refine under_leads hx fun i => ?_
    simp only
    split <;> exact of_decide_eq_true rfl
  | post id e =>
    simp only [exec]
    split <;> exact .nil hx
  | reset id => exact under_leads hx fun i => under_resetAll id i.slot.running
  | stateEntryUnlessCurrent id =>
    refine under_leads hx fun i => ?_
    simp only
    split <;> exact of_decide_eq_true rfl
  | save id s =>
    simp only [exec]
    split
    · exact under_save m id _ s
    · exact .nil hx
  | load l => exact under_load m l
  | recoverSize id l => exact under_leads hx fun i => under_recoverSize m id i l
  | recoverRead id l => exact under_leads hx fun i => under_recoverRead m id i l
  | edit id e =>
    refine under_leads hx fun i => ?_
    simp only
    split <;> exact of_decide_eq_true rfl
  | publishMask id =>
    refine under_leads hx fun i => ?_
    simp only
    split <;> exact of_decide_eq_true rfl
  | answer | log | count | clearQueue | replaceState | letGo | refill | loaded => exact .nil hx
  | start | stopAbort | stopEnd | clearPermissions | removePlugins | removeState | importData
  | register => exact about
  | _ => cases hx

theorem not_blocked_of_effort (hx : 0 < x.effort) (m : Machine) : x.blocked m = false := by
  cases x with
  | lockScript | parked => cases hx
  | _ => rfl

theorem quiet_exec (quiet : m.hooks = ([], [], [])) (hx : 0 < x.effort) (r : Reply) :
    (x.exec m r).machine.hooks = ([], [], []) := by
  cases x with
  | op o =>
    refine Eq.trans ?_ quiet
    cases o with
    | load name q program direct =>
      cases direct with
      | some limits => rfl
      | none =>
        simp only [exec, Machine.perform, Machine.target?, Machine.onEngine,
          Machine.loadReplacing]
        split <;> rfl
    | postItem item e =>
      simp only [exec, Machine.perform, Machine.target?, Machine.onEngine]
      split <;> rfl
    | remove item =>
      simp only [exec, Machine.perform, Machine.target?, Machine.onEngine, Machine.removeScript]
      split <;> rfl
    | _ => cases hx
  | _ => exact Machine.hooks_exec quiet r (by rintro o ⟨⟩)

end

end Instr

/-- A thread comes to the end of sections that all have an effort, and nobody has been called back. -/
theorem Thread.passes_quietly {m : Machine} {l rest : List Instr} {reply : Reply}
    (quiet : m.hooks = ([], [], [])) (h : ∀ x ∈ l, 0 < x.effort) :
    ∃ fuel m' r, Thread.run fuel m ⟨l ++ rest, reply⟩ = (m', ⟨rest, r⟩) ∧
      m'.hooks = ([], [], []) := by
  -- on the effort that is left
  induction hn : Instr.total l using Nat.strong_induction_on generalizing m l reply with
  | _ n ih =>
    cases l with
    | nil => exact ⟨0, m, reply, rfl, quiet⟩
    | cons x l =>
      obtain ⟨hx, hrest⟩ := List.forall_mem_cons.mp h
      obtain ⟨positive, less⟩ := Instr.under_exec quiet hx reply
      have moves : Thread.step? m ⟨x :: (l ++ rest), reply⟩ = some ((x.exec m reply).machine,
          ⟨((x.exec m reply).next ++ l) ++ rest, (x.exec m reply).reply⟩) := by
        simp [Thread.step?, Instr.not_blocked_of_effort hx]
      have left : Instr.total ((x.exec m reply).next ++ l) < n := by
        rw [Instr.total] at hn
        rw [Instr.total_append]
        omega
      obtain ⟨fuel, m', r, passed, still⟩ := ih _ left (Instr.quiet_exec quiet hx reply)
        (List.forall_mem_append.mpr ⟨positive, hrest⟩) rfl
      exact ⟨fuel + 1, m', r, (Thread.run_of_some moves fuel).trans passed, still⟩

/-- A thread that goes on alone comes to the end of the sections, if nobody is to be called back, and
nobody has been then. -/
def Instr.Passes (l : List Instr) : Prop :=
  ∀ m reply rest, m.hooks = ([], [], []) → ∃ fuel m' r,
    Thread.run fuel m ⟨l ++ rest, reply⟩ = (m', ⟨rest, r⟩) ∧ m'.hooks = ([], [], [])

namespace Instr.Passes

variable {a : Instr} {l l' : List Instr}

theorem nil : Passes [] := fun m reply _ quiet => ⟨0, m, reply, rfl, quiet⟩

theorem append (h : Passes l) (h' : Passes l') : Passes (l ++ l') := by
  intro m reply rest quiet
  obtain ⟨fuel, n, r, first, still⟩ := h m reply (l' ++ rest) quiet
  obtain ⟨more, m', r', second, quiet'⟩ := h' n r rest still
  refine ⟨fuel + more, m', r', ?_, quiet'⟩
  rw [Thread.run_add, List.append_assoc, first]
  exact second

theorem of_effort (h : ∀ x ∈ l, 0 < x.effort) : Passes l :=
  fun _ _ _ quiet => Thread.passes_quietly quiet h

/-- A section that never waits, and what it leads to. -/
theorem leads (free : ∀ m, a.blocked m = false) (op : ∀ o, a ≠ .op o)
    (next : ∀ m r, m.hooks = ([], [], []) → Passes (a.exec m r).next) : Passes [a] := by
  intro m reply rest quiet
  obtain ⟨fuel, m', r, passed, still⟩ := next m reply quiet _ (a.exec m reply).reply rest
    (Machine.hooks_exec quiet reply op)
  refine ⟨fuel + 1, m', r, ?_, still⟩
  have moves : Thread.step? m ⟨a :: rest, reply⟩ = some ((a.exec m reply).machine,
      ⟨(a.exec m reply).next ++ rest, (a.exec m reply).reply⟩) := by
    simp [Thread.step?, free]
  exact (Thread.run_of_some moves fuel).trans passed

end Instr.Passes

/-- A thread comes to the end of sections that all have an effort. -/
theorem Thread.passes_of_effort {m : Machine} {l rest : List Instr} {reply : Reply}
    (quiet : m.hooks = ([], [], [])) (h : ∀ x ∈ l, 0 < x.effort) :
    ∃ fuel m' r, Thread.run fuel m ⟨l ++ rest, reply⟩ = (m', ⟨rest, r⟩) := by
  obtain ⟨fuel, m', r, passed, -⟩ := passes_quietly quiet h
  exact ⟨fuel, m', r, passed⟩

/-- A thread whose sections all have an effort ends. -/
theorem Thread.ends_of_effort {m : Machine} {t : Thread} (quiet : m.hooks = ([], [], []))
    (h : ∀ x ∈ t.agenda, 0 < x.effort) : ∃ fuel m' r, t.run fuel m = (m', ⟨[], r⟩) := by
  obtain ⟨l, reply⟩ := t
  have passes := @Thread.passes_of_effort m l [] reply quiet h
  simpa only [List.append_nil] using passes

namespace Machine

variable {m : Machine} {o : Op}

/-- An operation on one script, called through the engine, ends. -/
theorem ends_engine (quiet : m.hooks = ([], [], [])) (ho : o.item?.isSome) :
    ∃ fuel m' r, (Thread.ofOp o).run fuel m = (m', ⟨[], r⟩) := by
  refine Thread.ends_of_effort quiet fun x hx => ?_
  obtain rfl := List.mem_singleton.mp hx
  change 0 < if _ then 23 else 0
  rw [if_pos ho]
  exact Nat.succ_pos 22

/-- An operation on an instance ends. -/
theorem ends_call (quiet : m.hooks = ([], [], [])) (id : Nat) (i : Instance) (o : Op) :
    ∃ fuel m' r, Thread.run fuel (m.onInstance id i o).1
      ⟨(m.onInstance id i o).2.1, (m.onInstance id i o).2.2⟩ = (m', ⟨[], r⟩) := by
  refine Thread.ends_of_effort ?_ ?_
  · cases o <;> exact quiet
  · cases o <;> exact of_decide_eq_true rfl

end Machine

end ScriptHost
