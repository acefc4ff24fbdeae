import ScriptHost.Proofs.Engine.Change
import ScriptHost.Proofs.Engine.Run
import ScriptHost.Proofs.Store.Apart

/-!
# Around the instances

Next to its instances and jobs a machine has a store, and operations that
collaborators still call back. Most sections leave both as they are
(`surroundings_exec`); of the others, `hooks_exec` says what becomes of a machine
that is called back no more, and `store_exec` what becomes of the store.
-/

namespace ScriptHost

/-- Sections that leave the store alone and call nothing back. -/
def Instr.confined : Instr → Bool
  | .op _ | .stopWait _ _ _ | .removeState _ | .save _ _ | .selfDelete _ | .showFault _ _ => false
  | _ => true

/-- The item whose document a section may write. -/
def Section.writes? (s : Section) : Option Uuid :=
  match s.instr with
  | .save id (.write _) => (s.machine.get? id).map (·.item)
  | .op (.put item _ _) | .op (.pad item _ _) => some item
  | _ => none

/-- The item whose document a section may remove. -/
def Section.removes? (s : Section) : Option Uuid :=
  match s.instr with
  | .removeState id => (s.machine.get? id).map (·.item)
  | .op (.store .remove item) => some item
  | _ => none

namespace Machine

/-- What collaborators still call back. -/
def hooks (m : Machine) : List WaitHook × List (List Op) × List (List Op) :=
  (m.waitHooks, m.messageHooks, m.deleteHooks)

/-- What a machine has next to its instances and jobs. -/
def surroundings (m : Machine) :
    DocumentStore × List WaitHook × List (List Op) × List (List Op) :=
  (m.store, m.hooks)

section

variable (m : Machine) (id : Nat) (i : Instance)

@[simp] theorem surroundings_note (n : Note) : (m.note n).surroundings = m.surroundings := rfl

@[simp] theorem surroundings_log (l : Level) (s : String) :
    (m.log l s).surroundings = m.surroundings := rfl

@[simp] theorem surroundings_count (c : Metric) : (m.count c).surroundings = m.surroundings := rfl

@[simp] theorem surroundings_modify (f : Instance → Instance) :
    (m.modify id f).surroundings = m.surroundings := rfl

@[simp] theorem surroundings_requestTurn : (m.requestTurn id).surroundings = m.surroundings := by
  unfold requestTurn
  split <;> rfl

theorem surroundings_start : (m.start id i).surroundings = m.surroundings := by
  unfold start
  simp only [apply_ite surroundings, surroundings_requestTurn, surroundings_log,
    surroundings_modify, ite_self]

@[simp] theorem surroundings_cancel (n : Nat) : (m.cancel n).surroundings = m.surroundings := by
  unfold cancel
  exact (apply_ite surroundings _ _ _).trans (ite_self _)

theorem surroundings_beginStop : (m.beginStop id i).1.surroundings = m.surroundings := by
  unfold beginStop
  split
  · rfl
  · split
    · rfl
    · simp only
      split <;> simp

@[simp] theorem surroundings_abort (n : Nat) : (m.abort n).surroundings = m.surroundings := by
  unfold abort
  simp only
  split
  · rfl
  · split <;> rfl

theorem surroundings_forceAbort (turn : Turn) :
    (m.forceAbort i turn).surroundings = m.surroundings := by
  unfold forceAbort
  split
  · rw [surroundings_count, surroundings_log]
  · rw [surroundings_count, surroundings_abort, surroundings_log]

theorem surroundings_endStop (turn : Turn) :
    (m.endStop id i turn).surroundings = m.surroundings := by
  unfold endStop
  split
  · simp only [apply_ite surroundings, surroundings_requestTurn, surroundings_modify, ite_self]
  · rfl

theorem surroundings_post (e : Event) : (m.post id i e).1.surroundings = m.surroundings := by
  unfold post
  split
  · rfl
  · simp only [apply_ite surroundings, surroundings_requestTurn, surroundings_modify,
      surroundings_count, ite_self]

theorem surroundings_finishTurn (ticket : Nat) :
    (m.finishTurn id i ticket).surroundings = m.surroundings := by
  unfold finishTurn
  simp only [apply_ite surroundings, surroundings_requestTurn, surroundings_modify,
    surroundings_log, ite_self]

theorem surroundings_takeTurn (ticket job : Nat) :
    (m.takeTurn id i ticket job).1.surroundings = m.surroundings := by
  unfold takeTurn
  split
  · split
    · rfl
    · simp only [switchState]
      split
      · split <;> rfl
      · rfl
  · rfl

@[simp] theorem hooks_write (item : Uuid) (data : Bytes) :
    (m.write item data).1.hooks = m.hooks := by
  unfold write
  simp only
  split
  · rfl
  · split
    · rfl
    · split
      · split <;> rfl
      · rfl

@[simp] theorem hooks_remove (item : Uuid) : (m.remove item).1.hooks = m.hooks := by
  unfold remove
  simp only
  split
  · rfl
  · split <;> rfl

theorem hooks_save (s : Saving) : (m.save id i s).1.hooks = m.hooks := by
  cases s with
  | write d =>
    simp only [save]
    split
    · exact hooks_write m _ _
    · exact hooks_write m _ _
  | verify =>
    simp only [save]
    split <;> rfl
  | _ => rfl

theorem takeDeleteHook_of_none {m : Machine} (h : m.deleteHooks = []) :
    m.takeDeleteHook = (m, []) := by
  rw [takeDeleteHook, h]

theorem takeMessageHook_of_none {m : Machine} (h : m.messageHooks = []) :
    m.takeMessageHook = (m, []) := by
  rw [takeMessageHook, h]

end

variable {m : Machine} {a : Instr}

open Instr in
theorem surroundings_exec (r : Reply) (ha : a.confined = true) :
    (a.exec m r).machine.surroundings = m.surroundings := by
  have about : ∀ {k : Nat} {f : Instance → Machine},
      (∀ i, (f i).surroundings = m.surroundings) →
      (Instr.about m r k f).machine.surroundings = m.surroundings := fun hf => by
    unfold Instr.about
    split
    · exact hf _
    · rfl
  have leads : ∀ {k : Nat} {f : Instance → Machine × List Instr},
      (∀ i, (f i).1.surroundings = m.surroundings) →
      (Instr.leads m r k f).machine.surroundings = m.surroundings := fun hf => by
    unfold Instr.leads
    split
    · exact hf _
    · rfl
  cases a with
  | op | stopWait | removeState | save | selfDelete | showFault => cases ha
  | start id => exact about fun i => surroundings_start m id i
  | stop id ms => exact leads fun i => surroundings_beginStop m id i
  | stopWaited id ms turn forced =>
    simp only [exec]
    split <;> rfl
  | stopAbort id turn => exact about fun i => surroundings_forceAbort m i turn
  | stopEnd id turn => exact about fun i => surroundings_endStop m id i turn
  | post id e =>
    simp only [exec]
    split
    · exact surroundings_post m id _ e
    · rfl
  | edit id e =>
    refine leads fun i => ?_
    simp only [Machine.edit]
    split <;> rfl
  | publishMask id =>
    refine leads fun i => ?_
    simp only [Machine.publishMask]
    split <;> rfl
  | saveEach ids | postEach ids => cases ids <;> rfl
  | shutdownEach ids =>
    cases ids with
    | nil => rfl
    | cons id ids => exact leads fun i => rfl
  | load l =>
    simp only [exec, load]
    split <;> rfl
  | recoverSize id l =>
    refine leads fun i => ?_
    simp only [recoverSize, startFresh]
    split
    · rfl
    · split <;> rfl
    · rfl
  | recoverRead id l =>
    refine leads fun i => ?_
    simp only [recoverRead, startFresh]
    split
    · rfl
    · split <;> rfl
  | run turns ran =>
    simp only [exec, run]
    split
    · rfl
    · rfl
    · split
      · rfl
      · split <;> rfl
  | takeTurn id ticket job => exact leads fun i => surroundings_takeTurn m id i ticket job
  | settle id =>
    simp only [exec, plain, Machine.settle]
    split
    · rfl
    · split <;> rfl
  | enter v =>
    refine leads fun i => ?_
    simp only [enter]
    split <;> rfl
  | act v l =>
    refine leads fun i => ?_
    cases l with
    | nil => rfl
    | cons a rest => cases a <;> simp only [act] <;> (try split) <;> rfl
  | applyRequests v o =>
    refine leads fun i => ?_
    split
    · rfl
    · split <;> rfl
  | conclude v o => cases o <;> rfl
  | deleted | delivered =>
    simp only [exec, plain]
    split <;> rfl
  | finishTurn id ticket => exact about fun i => surroundings_finishTurn m id i ticket
  | stopCheck | reset | stateEntryUnlessCurrent | readDetected => exact leads fun i => rfl
  | clearPermissions | removePlugins | importData | register | record => exact about fun i => rfl
  | _ => rfl

open Instr in
/-- Only operations ask collaborators to call back. -/
theorem hooks_exec (h : m.hooks = ([], [], [])) (r : Reply) (ho : ∀ o, a ≠ .op o) :
    (a.exec m r).machine.hooks = ([], [], []) := by
  have leads : ∀ {k : Nat} {f : Instance → Machine × List Instr},
      (∀ i, (f i).1.hooks = m.hooks) → (Instr.leads m r k f).machine.hooks = ([], [], []) :=
    fun hf => by
      unfold Instr.leads
      split
      · exact (hf _).trans h
      · exact h
  cases a with
  | op o => exact absurd rfl (ho o)
  | stopWait id ms turn =>
    have waits : (m.note (.wait turn.job ms)).waitHooks = [] := congrArg Prod.fst h
    simp only [exec, waits]
    exact h
  | removeState id =>
    simp only [exec, about]
    split
    · simp only [plain]
      split <;> exact (hooks_remove m _).trans h
    · exact h
  | save id s =>
    simp only [exec]
    split
    · exact (hooks_save m id _ s).trans h
    · exact h
  | selfDelete id =>
    refine leads fun i => ?_
    unfold selfDelete
    simp only
    split
    · rfl
    · have none : ((m.modify id fun i => { i with selfDeleting := true }).log .info
          "script deleting its own entity").deleteHooks = [] := congrArg (fun p => p.2.2) h
      rw [takeDeleteHook_of_none none]
      rfl
  | showFault v f =>
    refine leads fun i => ?_
    unfold showFault
    simp only
    split
    · rfl
    · have none : ((m.count .fault).log .error "script runtime error").messageHooks = [] :=
        congrArg (fun p => p.2.1) h
      rw [takeMessageHook_of_none none]
      rfl
  | _ => exact (congrArg Prod.snd (surroundings_exec r rfl)).trans h

/-! ## The store -/

/-- A removal takes a document out of the store, or leaves the store as it is. -/
theorem store_remove (m : Machine) (item : Uuid) : (m.remove item).1.store = m.store ∨
    m.store.remove item = .ok (m.remove item).1.store := by
  unfold remove
  simp only
  split
  · exact .inl rfl
  · split
    · next h => exact .inr h
    · exact .inl rfl

/-- A write puts a document into the store, or leaves the store as it is. -/
theorem store_write_cases (m : Machine) (item : Uuid) (data : Bytes) :
    (m.write item data).1.store = m.store ∨
      m.store.write item data = .ok (m.write item data).1.store := by
  unfold write
  simp only
  split
  · exact .inl rfl
  · split
    · exact .inl rfl
    · split
      · next store h =>
        right
        rw [show m.store.write item data = .ok store from h]
        split <;> rfl
      · exact .inl rfl

/-- What a section makes of the store. -/
inductive Stores (m : Machine) (a : Instr) (d : DocumentStore) : Prop where
  | same : d = m.store → Stores m a d
  | removes {item : Uuid} : Section.removes? ⟨m, a⟩ = some item → m.store.remove item = .ok d →
      Stores m a d
  | writes {item : Uuid} {data : Bytes} : Section.writes? ⟨m, a⟩ = some item →
      m.store.write item data = .ok d → Stores m a d

theorem stores_remove {item : Uuid} (h : Section.removes? ⟨m, a⟩ = some item) :
    Stores m a (m.remove item).1.store :=
  (store_remove m item).elim .same (.removes h)

theorem stores_put {item : Uuid} (h : Section.writes? ⟨m, a⟩ = some item) (data : Bytes) :
    Stores m a (m.store.put item data) := by
  unfold DocumentStore.put
  split
  · next hd => exact .writes h hd
  · exact .same rfl

theorem stores_perform (o : Op) : Stores m (.op o) (m.perform o).1.store := by
  unfold perform
  split
  · cases o with
    | put item data padTo => exact stores_put rfl _
    | pad item more least =>
      simp only [onEngine, padDocument]
      split
      · exact .same rfl
      · exact stores_put rfl _
    | store q item =>
      cases q with
      | remove => exact stores_remove rfl
      | _ => exact .same rfl
    | load name request program direct =>
      cases direct with
      | some limits => exact .same rfl
      | none =>
        simp only [onEngine, loadReplacing]
        split <;> exact .same rfl
    | remove item =>
      simp only [onEngine, removeScript]
      split <;> exact .same rfl
    | postItem item e =>
      simp only [onEngine]
      split <;> exact .same rfl
    | _ => exact .same rfl
  · split
    · exact .same rfl
    · split
      · exact .same rfl
      · refine .same ?_
        cases o <;> rfl

open Instr in
theorem stores_exec (m : Machine) (r : Reply) (a : Instr) :
    Stores m a (a.exec m r).machine.store := by
  have others : ∀ {b : Instr}, b.confined = true → Stores m b (b.exec m r).machine.store :=
    fun hb => .same (congrArg Prod.fst (surroundings_exec r hb))
  cases a with
  | op o => exact stores_perform o
  | stopWait id ms turn =>
    refine .same ?_
    simp only [exec]
    split <;> rfl
  | removeState id =>
    simp only [exec, about]
    split
    · next i hi =>
      have : ∀ n : Machine, (if (n.remove i.item).2.isSome = true then
          (n.remove i.item).1.log .debug "state removal failed, ignoring"
          else (n.remove i.item).1).store = (n.remove i.item).1.store := fun n => by split <;> rfl
      simp only [plain, this]
      exact stores_remove (by simp [Section.removes?, hi])
    · exact .same rfl
  | save id s =>
    simp only [exec]
    split
    · next i hi =>
      cases s with
      | write d =>
        have stays : ∀ n : Machine, (if (n.write i.item d.encode).2.isSome = true then
            (n.write i.item d.encode).1.log .error "unable to write script state"
            else (n.write i.item d.encode).1).store = (n.write i.item d.encode).1.store :=
          fun n => by split <;> rfl
        simp only [Machine.save, stays]
        exact (store_write_cases m _ _).elim .same (.writes (by simp [Section.writes?, hi]))
      | verify =>
        refine .same ?_
        simp only [Machine.save]
        split <;> rfl
      | _ => exact .same rfl
    · exact .same rfl
  | selfDelete id =>
    refine .same ?_
    simp only [exec, leads]
    split
    · simp only [selfDelete, takeDeleteHook]
      split
      · rfl
      · split <;> rfl
    · rfl
  | showFault v f =>
    refine .same ?_
    simp only [exec, leads]
    split
    · simp only [showFault, takeMessageHook]
      split
      · rfl
      · split <;> rfl
    · rfl
  | _ => exact others rfl

/-- What the store lacks it goes on lacking, unless a document of that item is written. -/
theorem lacks_exec {item : Uuid} (L : m.store.Lacks item) (r : Reply)
    (h : Section.writes? ⟨m, a⟩ ≠ some item) : (a.exec m r).machine.store.Lacks item := by
  cases stores_exec m r a with
  | same e => rw [e]; exact L
  | removes _ e => exact L.remove e
  | @writes other data hw e => exact L.write (fun he => h (he ▸ hw)) e

/-- A removal that succeeds leaves nothing where the document was. -/
theorem lacks_removeState {id : Nat} {i : Instance} (r : Reply) (hi : m.get? id = some i)
    (succeeds : (m.remove i.item).2 = none) :
    ((Instr.removeState id).exec m r).machine.store.Lacks i.item := by
  have removed : (m.remove i.item).1.store.Lacks i.item := by
    unfold remove at succeeds ⊢
    simp only at succeeds ⊢
    split at succeeds
    · cases succeeds
    · next hf =>
      rw [if_neg hf]
      split at succeeds
      · next d hd => exact DocumentStore.lacks_of_remove hd
      · cases succeeds
  simpa [Instr.exec, Instr.about, hi, Instr.plain, succeeds] using removed

end Machine

end ScriptHost
