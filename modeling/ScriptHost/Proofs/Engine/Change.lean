import ScriptHost.Proofs.Engine.Effect
import ScriptHost.Proofs.Engine.Holding

/-!
# What a section does to an instance

Most sections leave all instances as they are, apart from their slots and their
start parameters (`Machine.Spares`). `Instr.alter` says what becomes of the rest
of an instance, and `get?_exec` that this is so for every section. What the
slots come to is told by effects; between the two nothing of an instance is
left open.
-/

namespace ScriptHost

namespace Machine

variable {m m' : Machine} {id k : Nat} {i : Instance}

theorem get?_modify (f : Instance → Instance) :
    (m.modify k f).get? id = if k = id then (m.get? id).map f else m.get? id := by
  simp only [get?, modify, List.getElem?_modify]
  split <;> simp

theorem get?_modify_self (f : Instance → Instance) :
    (m.modify id f).get? id = (m.get? id).map f := by
  rw [get?_modify, if_pos rfl]

theorem modify_modify (f g : Instance → Instance) :
    (m.modify k f).modify k g = m.modify k fun i => g (f i) := by
  simp only [modify, List.modify_modify_eq]
  rfl

theorem modify_of_get? {f : Instance → Instance} (hi : m.get? k = some i) (hf : f i = i) :
    m.modify k f = m := by
  have here : m.instances[k]? = some i := hi
  obtain ⟨hlt, rfl⟩ := List.getElem?_eq_some_iff.mp here
  rw [modify, List.modify_eq_set, here, Option.getD_some, hf, List.set_getElem_self]

/-- No instance changes between the machines, except for its slot and its start parameter. -/
def Spares (m m' : Machine) : Prop :=
  ∀ id i, m.get? id = some i → ∃ s p, m'.get? id = some { i with slot := s, startParam := p }

namespace Spares

theorem of_instances (h : m'.instances = m.instances) : m.Spares m' := fun id i hi =>
  ⟨i.slot, i.startParam, by rw [get?, h]; exact hi⟩

theorem refl (m : Machine) : m.Spares m := of_instances rfl

theorem trans {n : Machine} (h : m.Spares n) (h' : n.Spares m') : m.Spares m' := fun id i hi => by
  obtain ⟨s, p, hn⟩ := h id i hi
  obtain ⟨s', p', hm'⟩ := h' id _ hn
  exact ⟨s', p', hm'⟩

theorem modify {f : Instance → Instance}
    (h : ∀ i, ∃ s p, f i = { i with slot := s, startParam := p }) : m.Spares (m.modify k f) :=
  fun id i hi => by
    rw [get?_modify, hi]
    split
    · obtain ⟨s, p, e⟩ := h i
      exact ⟨s, p, by rw [← e]; rfl⟩
    · exact ⟨i.slot, i.startParam, rfl⟩

/-- A change of the slot alone. -/
theorem slot (g : Slot → Slot) : m.Spares (m.modify k fun i => { i with slot := g i.slot }) :=
  .modify fun i => ⟨_, i.startParam, rfl⟩

theorem note (h : m.Spares m') (n : Note) : m.Spares (m'.note n) := h.trans (of_instances rfl)

theorem log (h : m.Spares m') (l : Level) (s : String) : m.Spares (m'.log l s) := h.note _

theorem count (h : m.Spares m') (c : Metric) : m.Spares (m'.count c) := h.note _

theorem ite {c : Prop} [Decidable c] {n n' : Machine} (h : m.Spares n) (h' : m.Spares n') :
    m.Spares (if c then n else n') := by
  split
  · exact h
  · exact h'

end Spares

theorem spares_requestTurn (m : Machine) (id : Nat) : m.Spares (m.requestTurn id) := by
  unfold requestTurn
  split
  · exact .refl m
  · exact .trans (.of_instances rfl)
      (.trans (.modify fun i => ⟨_, i.startParam, rfl⟩) (.of_instances rfl))

theorem spares_start (m : Machine) (id : Nat) (i : Instance) : m.Spares (m.start id i) := by
  have up : m.Spares (m.modify id (·.setRunning true)) := .slot fun s => { s with running := true }
  unfold start
  exact .ite (.refl m) (.ite up (.ite (up.trans (spares_requestTurn _ _)) (up.log _ _)))

theorem spares_cancel (m : Machine) (n : Nat) : m.Spares (m.cancel n) := by
  unfold cancel
  exact .ite (.of_instances rfl) (.of_instances rfl)

theorem spares_beginStop (m : Machine) (id : Nat) (i : Instance) :
    m.Spares (m.beginStop id i).1 := by
  unfold beginStop
  split
  · exact .refl m
  · split
    · exact .slot fun s => { s with running := false }
    · simp only
      split
      · exact (spares_cancel m _).trans
          (.slot fun s => { s with running := false, current := none })
      · exact (spares_cancel m _).trans (.slot fun s => { s with running := false })

theorem spares_abort (m : Machine) (n : Nat) : m.Spares (m.abort n) := by
  unfold abort
  simp only
  split
  · exact .of_instances rfl
  · split <;> exact .of_instances rfl

theorem spares_forceAbort (m : Machine) (i : Instance) (turn : Turn) :
    m.Spares (m.forceAbort i turn) := by
  unfold forceAbort
  exact .ite (.of_instances rfl)
    ((Spares.trans (.of_instances rfl) (spares_abort (m.log _ _) turn.job)).count _)

theorem spares_post (m : Machine) (id : Nat) (i : Instance) (e : Event) :
    m.Spares (m.post id i e).1 := by
  unfold post
  split
  · exact .of_instances rfl
  · have : m.Spares (m.modify id (·.setQueue (i.slot.queue.push e).1)) :=
      .slot fun s => { s with queue := (i.slot.queue.push e).1 }
    exact (Spares.ite (this.trans (spares_requestTurn _ _)) this).count _

theorem spares_write (m : Machine) (item : Uuid) (data : Bytes) :
    m.Spares (m.write item data).1 := by
  unfold write
  simp only
  split
  · exact .of_instances rfl
  · split
    · exact .of_instances rfl
    · split
      · exact .ite (.of_instances rfl) (.of_instances rfl)
      · exact .of_instances rfl

theorem spares_remove (m : Machine) (item : Uuid) : m.Spares (m.remove item).1 := by
  unfold remove
  simp only
  split
  · exact .of_instances rfl
  · split <;> exact .of_instances rfl

theorem spares_save (m : Machine) (id : Nat) (i : Instance) (s : Saving) :
    m.Spares (m.save id i s).1 := by
  cases s with
  | write d => exact .ite ((spares_write m _ _).log _ _) (spares_write m _ _)
  | verify =>
    simp only [save]
    split <;> exact .of_instances rfl
  | _ => exact .refl m

theorem instances_run (m : Machine) (turns ran : Nat) :
    (m.run turns ran).1.instances = m.instances := by
  unfold run
  split
  · rfl
  · rfl
  · split
    · rfl
    · split <;> rfl

theorem spares_run (m : Machine) (turns ran : Nat) : m.Spares (m.run turns ran).1 :=
  .of_instances (instances_run m turns ran)

theorem spares_load (m : Machine) (l : Loading) : m.Spares (m.load l).1 := by
  unfold load
  simp only
  split
  · exact .of_instances rfl
  · refine fun id i hi => ⟨i.slot, i.startParam, ?_⟩
    have hlt : id < m.instances.length := (List.getElem?_eq_some_iff.mp hi).1
    simpa [get?, List.getElem?_append_left hlt] using hi

theorem spares_startFresh (m : Machine) (id : Nat) (l : Loading) (path : String) :
    m.Spares (m.startFresh id l path).1 := by
  unfold startFresh
  simp only
  split <;> exact .of_instances rfl

theorem spares_storeReply (m : Machine) (item : Uuid) (q : StoreQuery) :
    m.Spares (m.storeReply item q).1 := by
  cases q with
  | remove => exact spares_remove m item
  | _ => exact .refl m

theorem spares_onEngine (m : Machine) (o : Op) : m.Spares (m.onEngine o).1 := by
  cases o with
  | load name request program direct =>
    cases direct with
    | some limits => exact .refl m
    | none =>
      simp only [onEngine, loadReplacing]
      split <;> exact .of_instances rfl
  | remove item =>
    simp only [onEngine, removeScript]
    split <;> exact .of_instances rfl
  | postItem item e =>
    simp only [onEngine]
    split <;> exact .refl m
  | pad item more least =>
    simp only [onEngine, padDocument]
    split <;> exact .of_instances rfl
  | store q item => exact spares_storeReply m item q
  | _ => exact .of_instances rfl

theorem spares_onInstance (m : Machine) (id : Nat) (i : Instance) (o : Op) :
    m.Spares (m.onInstance id i o).1 := by
  cases o with
  | setStartParam target value => exact .modify fun i => ⟨i.slot, value, rfl⟩
  | _ => exact .refl m

theorem spares_perform (m : Machine) (o : Op) : m.Spares (m.perform o).1 := by
  unfold perform
  split
  · exact spares_onEngine m o
  · split
    · exact .refl m
    · split
      · exact .refl m
      · exact spares_onInstance m _ _ o

/-! ## Sections that change one instance -/

/-- From one machine to the other only the instance `k` changes, as `g` says, and slots and start
parameters. -/
def Alters (m m' : Machine) (k : Nat) (g : Instance → Instance) : Prop :=
  ∀ id i, m.get? id = some i →
    ∃ s p, m'.get? id = some { (if k = id then g i else i) with slot := s, startParam := p }

namespace Alters

variable {n : Machine} {g f : Instance → Instance}

/-- A change of the instance that is there. -/
theorem modify (hi : m.get? k = some i)
    (h : ∃ s p, f i = { g i with slot := s, startParam := p }) : m.Alters (m.modify k f) k g :=
  fun id j hj => by
    rw [get?_modify, hj]
    split
    · next he =>
      subst he
      obtain rfl : i = j := Option.some.inj (hi.symm.trans hj)
      obtain ⟨s, p, e⟩ := h
      exact ⟨s, p, congrArg some e⟩
    · exact ⟨j.slot, j.startParam, rfl⟩

theorem spares (h : m.Alters n k g) (h' : n.Spares m') : m.Alters m' k g := fun id i hi => by
  obtain ⟨s, p, hn⟩ := h id i hi
  obtain ⟨s', p', hm'⟩ := h' id _ hn
  exact ⟨s', p', hm'⟩

/-- There is nothing to be changed. -/
theorem of_spares (hi : m.get? k = some i) (h : m.Spares m') (hg : g i = i) :
    m.Alters m' k g := fun id j hj => by
  obtain ⟨s, p, e⟩ := h id j hj
  refine ⟨s, p, ?_⟩
  split
  · next he =>
    subst he
    obtain rfl : i = j := Option.some.inj (hi.symm.trans hj)
    rw [hg]; exact e
  · exact e

theorem absent (h : m.get? k = none) : m.Alters m k g := fun id j hj => by
  have hk : k ≠ id := by rintro rfl; cases h.symm.trans hj
  exact ⟨j.slot, j.startParam, by rw [if_neg hk]; exact hj⟩

theorem of_instances {n' : Machine} (h : m.Alters n k g) (e : n'.instances = n.instances) :
    m.Alters n' k g := h.spares (.of_instances e)

theorem of_about {r : Reply} {f : Instance → Machine}
    (h : ∀ i, m.get? k = some i → m.Alters (f i) k g) :
    m.Alters (Instr.about m r k f).machine k g := by
  unfold Instr.about
  split
  · next i hi => exact h i hi
  · next hi => exact absent hi

theorem of_leads {r : Reply} {f : Instance → Machine × List Instr}
    (h : ∀ i, m.get? k = some i → m.Alters (f i).1 k g) :
    m.Alters (Instr.leads m r k f).machine k g := by
  unfold Instr.leads
  split
  · next i hi => exact h i hi
  · next hi => exact absent hi

end Alters

end Machine

/-- The variables once a handler of the event has taken an action. -/
def Action.write (e : Event) (live : Vars) : Action → Vars
  | .set name value => live.insert name value
  | .takeArgument name =>
    match e.args with
    | value :: _ => live.insert name value
    | [] => live
  | .increment name => live.insert name (Machine.incremented (live.get? name))
  | _ => live

namespace Instr

/-- The instance that a section changes, and how: slots and start parameters are left aside, and
sections that are not listed change nothing else. -/
def change? : Instr → Option (Nat × (Instance → Instance))
  | .stopEnd id turn => some (id, fun i => if i.owns turn.ticket then i.clearSnapshot else i)
  | .edit id e => some (id, (·.edit e))
  | .replaceState id state => some (id, fun i => { i with state := state })
  | .publishMask id => some (id, Instance.publish)
  | .letGo id e => some (id, (·.letGo e))
  | .takeTurn id ticket _ => some (id, fun i =>
    if i.owns ticket then
      match i.slot.queue.pop? with
      | none => i
      | some (e, rest) => i.take e rest
    else i)
  | .lockScript v => some (v.id, fun i => { i with holder := some .handler })
  | .settle id => some (id, Instance.settle)
  | .enter v => some (v.id, fun i =>
    match i.program.handler i.state v.event.name with
    | none => i
    | some (key, _) => i.countRun key)
  | .act v (a :: _) => some (v.id, fun i => { i with live := a.write v.event i.live })
  | .unlock id => some (id, fun i => { i with holder := none })
  | .selfDelete id => some (id, fun i => { i with selfDeleting := true })
  | .finishTurn id ticket => some (id, fun i => if i.owns ticket then i.clearSnapshot else i)
  | _ => none

/-- What a section makes of the instance, its slot and its start parameter apart. -/
def alter (id : Nat) (i : Instance) (a : Instr) : Instance :=
  match a.change? with
  | some (k, g) => if k = id then g i else i
  | none => i

/-- `Alteration id i a j`: the section `a` may make `j` of the instance `i`, its slot and its start
parameter apart. -/
inductive Alteration (id : Nat) (i : Instance) : Instr → Instance → Prop where
  | same {a : Instr} : Alteration id i a i
  | edit (e : Edit) : Alteration id i (.edit id e) (i.edit e)
  | state (s : String) : Alteration id i (.replaceState id s) { i with state := s }
  | publish : Alteration id i (.publishMask id) i.publish
  | letGo (e : Errand) : Alteration id i (.letGo id e) (i.letGo e)
  | take {a : Instr} (e : Event) (rest : Queue) : Alteration id i a (i.take e rest)
  | lock (v : Invocation) : v.id = id →
      Alteration id i (.lockScript v) { i with holder := some .handler }
  | settle : Alteration id i (.settle id) i.settle
  | run {a : Instr} (key : String) : Alteration id i a (i.countRun key)
  | write (v : Invocation) (x : Action) (l : List Action) : v.id = id →
      Alteration id i (.act v (x :: l)) { i with live := x.write v.event i.live }
  | unlock : Alteration id i (.unlock id) { i with holder := none }
  | delete {a : Instr} : Alteration id i a { i with selfDeleting := true }
  | clear {a : Instr} : Alteration id i a i.clearSnapshot

theorem alteration (a : Instr) (id : Nat) (i : Instance) : Alteration id i a (a.alter id i) := by
  unfold alter
  split
  · next k g h =>
    split
    · next hk =>
      subst hk
      cases a with
      | stopEnd | finishTurn =>
        cases h
        simp only
        split
        · exact .clear
        · exact .same
      | takeTurn =>
        cases h
        simp only
        split
        · split
          · exact .same
          · exact .take _ _
        · exact .same
      | enter v =>
        cases h
        simp only
        split
        · exact .same
        · exact .run _
      | act v l =>
        cases l with
        | nil => cases h
        | cons x l => cases h; exact .write v x l rfl
      | edit id e => cases h; exact .edit e
      | publishMask => cases h; exact .publish
      | letGo id e => cases h; exact .letGo e
      | replaceState id s => cases h; exact .state s
      | lockScript v => cases h; exact .lock v rfl
      | settle => cases h; exact .settle
      | unlock => cases h; exact .unlock
      | selfDelete => cases h; exact .delete
      | _ => cases h
    · exact .same
  · exact .same

end Instr

namespace Machine

variable {m : Machine} {id k : Nat} {i : Instance}

open Spares in
/-- What a section does that is not listed. -/
theorem spares_exec (r : Reply) {a : Instr} (h : a.change? = none) :
    m.Spares (a.exec m r).machine := by
  have about : ∀ {k : Nat} {f : Instance → Machine}, (∀ i, m.Spares (f i)) →
      m.Spares (Instr.about m r k f).machine := fun h => by
    unfold Instr.about
    split
    · exact h _
    · exact refl m
  have leads : ∀ {k : Nat} {f : Instance → Machine × List Instr}, (∀ i, m.Spares (f i).1) →
      m.Spares (Instr.leads m r k f).machine := fun h => by
    unfold Instr.leads
    split
    · exact h _
    · exact refl m
  cases a with
  | op o => exact spares_perform m o
  | start id => exact about fun i => spares_start m id i
  | stop id ms => exact leads fun i => spares_beginStop m id i
  | stopWait id ms turn =>
    simp only [Instr.exec]
    split <;> exact .of_instances rfl
  | stopWaited id ms turn forced =>
    simp only [Instr.exec]
    split <;> exact refl m
  | stopCheck | shutdownEach | reset | stateEntryUnlessCurrent | readDetected =>
    first
    | exact leads fun i => .of_instances rfl
    | (next ids _ => cases ids <;> first | exact refl m | exact leads fun i => refl m)
  | stopAbort id turn => exact about fun i => spares_forceAbort m i turn
  | post id e =>
    simp only [Instr.exec]
    split
    · exact spares_post m id _ e
    · exact refl m
  | clearQueue id => exact .slot fun s => { s with queue := s.queue.clear }
  | refill id l => exact .slot fun s => { s with queue := s.queue.pushAll l }
  | clearPermissions | removePlugins | importData | register | record =>
    exact about fun i => .of_instances rfl
  | removeState id =>
    exact about fun i => .ite ((spares_remove m _).log _ _) (spares_remove m _)
  | save id s =>
    simp only [Instr.exec]
    split
    · exact spares_save m id _ s
    · exact refl m
  | saveEach ids | postEach ids => cases ids <;> exact refl m
  | load l => exact spares_load m l
  | recoverSize id l =>
    refine leads fun i => ?_
    unfold recoverSize
    split
    · exact spares_startFresh m id l _
    · split
      · exact spares_startFresh m id l _
      · exact refl m
    · exact spares_startFresh m id l _
  | recoverRead id l =>
    refine leads fun i => ?_
    unfold recoverRead
    split
    · exact spares_startFresh m id l _
    · split
      · exact spares_startFresh m id l _
      · exact .of_instances rfl
  | run turns ran => exact spares_run m turns ran
  | act v l =>
    cases l with
    | nil => exact leads fun i => refl m
    | cons => cases h
  | applyRequests v o =>
    refine leads fun i => ?_
    split
    · exact refl m
    · exact .ite (refl m) (.of_instances rfl)
  | conclude v o =>
    simp only [Instr.exec]
    cases o <;> exact .of_instances rfl
  | deleted | delivered => exact .ite (.of_instances rfl) (.of_instances rfl)
  | showFault v f =>
    refine leads fun i => ?_
    simp only [showFault, takeMessageHook]
    split
    · exact .of_instances rfl
    · split <;> exact .of_instances rfl
  | stopEnd | edit | replaceState | publishMask | letGo | takeTurn | lockScript | settle | enter
  | unlock | selfDelete | finishTurn => cases h
  | _ => exact .of_instances rfl

theorem alters_endStop (hi : m.get? k = some i) (turn : Turn) :
    m.Alters (m.endStop k i turn) k
      fun i => if i.owns turn.ticket then i.clearSnapshot else i := by
  unfold endStop
  by_cases ho : i.owns turn.ticket = true
  · have clear : m.Alters (m.modify k fun i => i.release.clearSnapshot) k
        fun i => if i.owns turn.ticket then i.clearSnapshot else i :=
      .modify hi ⟨i.release.slot, i.startParam, by simp only [ho, if_true]; rfl⟩
    rw [if_pos ho]
    simp only
    split
    · exact clear.spares (spares_requestTurn _ _)
    · exact clear
  · rw [if_neg ho]
    exact .of_spares hi (.refl m) (if_neg ho)

theorem alters_finishTurn (hi : m.get? k = some i) (ticket : Nat) :
    m.Alters (m.finishTurn k i ticket) k
      fun i => if i.owns ticket then i.clearSnapshot else i := by
  unfold finishTurn
  by_cases ho : i.owns ticket = true
  · have clear : m.Alters (m.modify k Instance.clearSnapshot) k
        fun i => if i.owns ticket then i.clearSnapshot else i :=
      .modify hi ⟨i.slot, i.startParam, by simp only [ho, if_true]; rfl⟩
    rw [if_pos ho]
    simp only
    split
    · exact clear.spares (spares_requestTurn _ _)
    · exact clear.spares (.slot fun s => { s with current := none })
  · rw [if_neg ho]
    exact .of_spares hi (.of_instances rfl) (if_neg ho)

theorem alters_takeTurn (hi : m.get? k = some i) (ticket job : Nat) :
    m.Alters (m.takeTurn k i ticket job).1 k fun i =>
      if i.owns ticket then
        match i.slot.queue.pop? with
        | none => i
        | some (e, rest) => i.take e rest
      else i := by
  unfold takeTurn
  by_cases ho : i.owns ticket = true
  · rw [if_pos ho]
    cases hp : i.slot.queue.pop? with
    | none =>
      exact .of_spares hi (.slot fun s => { s with current := none }) (by simp only [hp, ite_self])
    | some p =>
      obtain ⟨e, rest⟩ := p
      have take : m.Alters (m.modify k (·.take e rest)) k fun i =>
          if i.owns ticket then
            match i.slot.queue.pop? with
            | none => i
            | some (e, rest) => i.take e rest
          else i :=
        .modify hi ⟨(i.take e rest).slot, i.startParam, by simp only [ho, hp, if_true]; rfl⟩
      simp only
      split
      · simp only [switchState]
        split <;> exact take.of_instances rfl
      · exact take
  · rw [if_neg ho]
    exact .of_spares hi (.of_instances rfl) (if_neg ho)

theorem alters_enter {v : Invocation} (hi : m.get? v.id = some i) :
    m.Alters (m.enter i v).1 v.id fun i =>
      match i.program.handler i.state v.event.name with
      | none => i
      | some (key, _) => i.countRun key := by
  unfold enter
  simp only
  cases hh : i.program.handler i.state v.event.name with
  | none => exact .of_spares hi (.of_instances rfl) (by simp only [hh])
  | some p => exact .modify (m := m.note _) hi ⟨i.slot, i.startParam, by simp only [hh]; rfl⟩

theorem alters_act {v : Invocation} (hi : m.get? v.id = some i) (a : Action)
    (rest : List Action) : m.Alters (m.act i v (a :: rest)).1 v.id
      fun i => { i with live := a.write v.event i.live } := by
  have set : ∀ (name : String) (value : Value),
      a.write v.event i.live = i.live.insert name value →
      m.Alters (m.modify v.id fun i => { i with live := i.live.insert name value }) v.id
        fun i => { i with live := a.write v.event i.live } := fun name value h =>
    .modify hi ⟨i.slot, i.startParam, by rw [h]⟩
  have same : ∀ {n : Machine}, n.instances = m.instances → a.write v.event i.live = i.live →
      m.Alters n v.id fun i => { i with live := a.write v.event i.live } := fun h hw =>
    .of_spares hi (.of_instances h) (by rw [hw])
  cases a with
  | set name value => exact set name value rfl
  | takeArgument name =>
    simp only [act]
    cases hargs : v.event.args with
    | nil => exact same rfl (by simp [Action.write, hargs])
    | cons value more => exact set name value (by simp [Action.write, hargs])
  | increment name => exact set name _ rfl
  | cancelIfInterrupted =>
    simp only [act]
    split <;> exact same rfl rfl
  | _ => exact same rfl rfl

theorem alters_selfDelete (hi : m.get? k = some i) :
    m.Alters (m.selfDelete k i).1 k fun i => { i with selfDeleting := true } := by
  have flag : m.Alters (m.modify k fun i => { i with selfDeleting := true }) k
      fun i => { i with selfDeleting := true } := .modify hi ⟨i.slot, i.startParam, rfl⟩
  unfold selfDelete
  simp only [takeDeleteHook]
  split
  · exact flag.of_instances rfl
  · split <;> exact flag.of_instances rfl

theorem alters_modify (m : Machine) (k : Nat) {g : Instance → Instance}
    (hs : ∀ i, (g i).slot = i.slot) (hp : ∀ i, (g i).startParam = i.startParam) :
    m.Alters (m.modify k g) k g := by
  cases hi : m.get? k with
  | none =>
    have : m.modify k g = m := by
      unfold modify
      rw [List.modify_eq_self (by simpa [get?] using hi)]
    rw [this]
    exact .absent hi
  | some i => exact .modify hi ⟨i.slot, i.startParam, by rw [← hs, ← hp]⟩

theorem alters_edit (k : Nat) (i : Instance) (e : Edit) :
    m.Alters (m.edit k i e) k (·.edit e) := by
  have change : ∀ n : Machine, n.Alters (n.modify k (·.edit e)) k (·.edit e) := fun n =>
    alters_modify n k (fun i => by unfold Instance.edit; split <;> rfl)
      fun i => by unfold Instance.edit; split <;> rfl
  unfold edit
  split
  · exact change (m.log _ _)
  · exact change m

theorem alters_publishMask (k : Nat) (i : Instance) :
    m.Alters (m.publishMask k i) k Instance.publish := by
  have change : ∀ n : Machine, n.Alters (n.modify k Instance.publish) k Instance.publish := fun n =>
    alters_modify n k (fun _ => rfl) fun _ => rfl
  unfold publishMask
  split
  · exact change (m.log _ _)
  · exact change (m.sendMask i)

theorem alters_settle (k : Nat) : m.Alters (m.settle k) k Instance.settle := by
  have change : ∀ n : Machine, n.Alters (n.modify k Instance.settle) k Instance.settle := fun n =>
    alters_modify n k (fun _ => rfl) fun _ => rfl
  unfold settle
  cases hi : m.get? k with
  | none => exact .absent hi
  | some i =>
    simp only
    split
    · exact change (m.sendMask i)
    · exact change m

theorem alters_exec (r : Reply) {a : Instr} {g : Instance → Instance}
    (h : a.change? = some (k, g)) : m.Alters (a.exec m r).machine k g := by
  cases a with
  | stopEnd id turn => cases h; exact .of_about fun i hi => alters_endStop hi turn
  | edit id e => cases h; exact .of_leads fun i _ => alters_edit _ i e
  | publishMask id => cases h; exact .of_leads fun i _ => alters_publishMask _ i
  | takeTurn id ticket job => cases h; exact .of_leads fun i hi => alters_takeTurn hi ticket job
  | settle id => cases h; exact alters_settle _
  | enter v => cases h; exact .of_leads fun i hi => alters_enter hi
  | act v l =>
    cases l with
    | nil => cases h
    | cons a rest => cases h; exact .of_leads fun i hi => alters_act hi a rest
  | selfDelete id => cases h; exact .of_leads fun i hi => alters_selfDelete hi
  | finishTurn id ticket => cases h; exact .of_about fun i hi => alters_finishTurn hi ticket
  | replaceState | letGo | lockScript | unlock =>
    cases h
    exact alters_modify _ _ (fun _ => rfl) fun _ => rfl
  | _ => cases h

/-- What every section makes of an instance. -/
theorem get?_exec (r : Reply) (a : Instr) (hi : m.get? id = some i) : ∃ s p,
    (a.exec m r).machine.get? id = some { a.alter id i with slot := s, startParam := p } := by
  unfold Instr.alter
  split
  · next k g h => exact alters_exec r h id i hi
  · next h => exact spares_exec r h id i hi

/-- An instance that was not there before has just been made by a load. -/
theorem get?_new (r : Reply) {a : Instr} (hn : m.get? id = none)
    (hi : (a.exec m r).machine.get? id = some i) :
    ∃ l caps, a = .load l ∧ i = Instance.create l.request l.program l.limits caps := by
  have old : (a.exec m r).machine.core.slots.length = m.core.slots.length → False := fun h => by
    have := (List.getElem?_eq_some_iff.mp (slot_of_get? hi)).1
    have := List.getElem?_eq_none_iff.mp (slots_of_get?_none hn)
    omega
  have e := effect_exec m r a
  generalize (a.exec m r).machine.core = c, (a.exec m r).next = next at e old
  cases e with
  | @create l =>
    simp only [Instr.exec, load] at hi
    split at hi
    · cases hn.symm.trans hi
    · next e he =>
      rw [get?, List.getElem?_append] at hi
      split at hi
      · cases hn.symm.trans hi
      · obtain ⟨-, rfl⟩ := List.getElem?_eq_some_iff.mp hi
        exact ⟨l, m.capabilities.instantiate l.request.identity e, rfl, by simp⟩
  | _ =>
    refine (old ?_).elim
    simp [Core.revise, Core.rephase, Core.trip, Core.unregister, Core.enter, Core.enlist]

end Machine

end ScriptHost
