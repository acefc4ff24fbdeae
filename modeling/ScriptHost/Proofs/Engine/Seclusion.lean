import ScriptHost.Proofs.Engine.InStep
import ScriptHost.Proofs.Engine.Resting
import ScriptHost.Proofs.Engine.Turn

/-!
# Work on one item

Handlers are secluded if they act through what they are given only and do not ask
for their entity to be deleted (`Program.Secluded`). The sections of an operation on
one item, and of a turn whose handler is secluded, are about that item's
instances and jobs, and so are those that they lead to (`Instr.Within`).
-/

namespace ScriptHost

/-- An action that calls no operations, and does not end in a self-delete. -/
inductive Action.Secluded : Action → Prop where
  | simple {a : Action} : a.simple = true → Secluded a
  | park (untilInterrupted : Bool) : Secluded (.park untilInterrupted)
  | choose {next : View → List Action} :
      (∀ view, ∀ x ∈ next view, Secluded x) → Secluded (.choose next)
  | finish {how : Finish} : how.caught ≠ .selfDelete → Secluded (.finish how)

def Program.Secluded (p : Program) : Prop :=
  ∀ state name key actions, p.handler state name = some (key, actions) →
    ∀ n, ∀ x ∈ actions n, Action.Secluded x

theorem Program.secluded_answering {handlers : List (String × List Action)}
    (h : ∀ name actions, (name, actions) ∈ handlers → ∀ x ∈ actions, Action.Secluded x) :
    (answering handlers).Secluded := by
  intro state name key actions hh n
  obtain ⟨l, hl, he⟩ := Option.map_eq_some_iff.mp hh
  obtain ⟨rfl, rfl⟩ := Prod.mk.inj he
  obtain ⟨before, after, rfl, -⟩ := List.lookup_eq_some_iff.mp hl
  exact h name l (by simp)

/-- The item of an operation on the engine that is about one script. -/
def Op.item? : Op → Option Uuid
  | .load _ q _ _ => some q.identity.item
  | .postItem item _ | .remove item => some item
  | _ => none

namespace Machine

/-- The instance is one of the item's, and its handlers are secluded. -/
def Tame (m : Machine) (a : Uuid) (id : Nat) : Prop :=
  ∃ i, m.get? id = some i ∧ i.item = a ∧ i.program.Secluded

/-- Instances and jobs stay what they are. -/
structure Extends (m m' : Machine) : Prop where
  get? : ∀ {id : Nat} {i : Instance}, m.get? id = some i →
    ∃ i', m'.get? id = some i' ∧ i'.item = i.item ∧ i'.program = i.program
  job? : ∀ {n : Nat} {j : Job}, m.job? n = some j → ∃ j', m'.job? n = some j' ∧ j'.owner = j.owner

variable {m m' m'' : Machine} {a : Uuid} {id n : Nat}

namespace Extends

theorem refl (m : Machine) : Extends m m where
  get? h := ⟨_, h, rfl, rfl⟩
  job? h := ⟨_, h, rfl⟩

theorem trans (E : Extends m m') (E' : Extends m' m'') : Extends m m'' where
  get? h := by
    obtain ⟨i, hi, he, hp⟩ := E.get? h
    obtain ⟨i', hi', he', hp'⟩ := E'.get? hi
    exact ⟨i', hi', he'.trans he, hp'.trans hp⟩
  job? h := by
    obtain ⟨j, hj, ho⟩ := E.job? h
    obtain ⟨j', hj', ho'⟩ := E'.job? hj
    exact ⟨j', hj', ho'.trans ho⟩

theorem of (E : Extends m m') (h : m.Of a id) : m'.Of a id := by
  obtain ⟨i, hi, rfl⟩ := h
  obtain ⟨i', hi', he, -⟩ := E.get? hi
  exact ⟨i', hi', he⟩

theorem tame (E : Extends m m') (h : m.Tame a id) : m'.Tame a id := by
  obtain ⟨i, hi, rfl, hs⟩ := h
  obtain ⟨i', hi', he, hp⟩ := E.get? hi
  exact ⟨i', hi', he, hp ▸ hs⟩

theorem jobOf (E : Extends m m') (h : m.JobOf a n) : m'.JobOf a n := by
  obtain ⟨j, hj, ho⟩ := h
  obtain ⟨j', hj', he⟩ := E.job? hj
  exact ⟨j', hj', he ▸ E.of ho⟩

end Extends

theorem Tame.of (h : m.Tame a id) : m.Of a id := by
  obtain ⟨i, hi, ha, -⟩ := h
  exact ⟨i, hi, ha⟩

theorem extends_setPhase (m : Machine) (n : Nat) (p : Phase) : m.Extends (m.setPhase n p) where
  get? h := ⟨_, h, rfl, rfl⟩
  job? {k j} h := by
    unfold job? at h ⊢
    split at h
    · cases h
    · next hk =>
      rw [if_neg hk]
      simp only [setPhase, modifyJob, List.getElem?_modify, h]
      refine ⟨_, rfl, ?_⟩
      split <;> rfl

/-- Jobs keep their owner whatever is done. -/
theorem owner_effect {x : Instr} {c : Core} {next : List Instr} (e : Effect m x c next) {j : Job}
    (h : m.core.job? n = some j) : ∃ j', c.job? n = some j' ∧ j'.owner = j.owner := by
  have revised : ∀ {d : Core} {k : Nat} {r : Revision}, (∃ j', d.job? n = some j' ∧
      j'.owner = j.owner) → ∃ j', (d.revise k r).job? n = some j' ∧ j'.owner = j.owner := by
    rintro d k r ⟨j', hj, ho⟩
    exact ⟨j', Core.job?_revise_of_some hj, ho⟩
  have changed : ∀ (k : Nat) (f : Job → Job), (∀ j, (f j).owner = j.owner) →
      ∃ j', ({ m.core with jobs := m.core.jobs.modify k f } : Core).job? n = some j' ∧
        j'.owner = j.owner := by
    intro k f hf
    unfold Core.job? at h ⊢
    split at h
    · cases h
    · next hn =>
      simp only [hn, if_false, List.getElem?_modify, h]
      refine ⟨_, rfl, ?_⟩
      split
      · exact hf j
      · rfl
  cases e with
  | start | post | clear | refill | halt | await | giveUp | handOn | idle | takeSwitch | take =>
    exact revised ⟨j, h, rfl⟩
  | cancel => exact revised (changed _ _ fun _ => rfl)
  | trip => exact changed _ _ fun _ => rfl
  | takeBack => exact changed _ _ fun _ => rfl
  | run => exact changed _ _ fun _ => rfl
  | done => exact changed _ _ fun _ => rfl
  | _ => exact ⟨j, h, rfl⟩

theorem extends_exec (m : Machine) (r : Reply) (x : Instr) : m.Extends (x.exec m r).machine where
  get? {id i} hi := by
    obtain ⟨s, p, h⟩ := get?_exec r x hi
    obtain ⟨hid, -, hp, -⟩ := x.fixed_alter id i
    exact ⟨_, h, congrArg Identity.item hid, hp⟩
  job? h := owner_effect (effect_exec m r x) h

theorem extends_run (fuel : Nat) (m : Machine) (t : Thread) : m.Extends (t.run fuel m).1 := by
  induction fuel generalizing m t with
  | zero => exact .refl m
  | succ fuel ih =>
    cases hs : t.step? m with
    | none => rw [Thread.run_of_none hs]; exact .refl m
    | some p =>
      obtain ⟨m', t'⟩ := p
      obtain ⟨x, rest, -, -, rfl, rfl⟩ := Thread.step?_eq_some hs
      rw [Thread.run_of_some hs]
      exact (extends_exec m t.reply x).trans (ih _ _)

end Machine

namespace Instr

/-- The section is about instances and jobs of the item, or about nothing that belongs to any. -/
def Within (m : Machine) (a : Uuid) : Instr → Prop
  | .answer _ | .log _ _ | .count _ | .delivered _ _ | .loaded _ _ _ => True
  | .op o => o.item? = some a
  | .load l => l.request.identity.item = a
  | .start id | .stop id _ | .post id _ | .clearQueue id | .edit id _ | .replaceState id _
  | .clearPermissions id | .removePlugins id | .removeState id | .publishMask id | .reset id
  | .stateEntryUnlessCurrent id | .save id _ | .recoverSize id _ | .recoverRead id _
  | .importData id _ | .refill id _ | .register id | .letGo id _ | .settle id
  | .unlock id | .finishTurn id _ => m.Of a id
  | .stopWait id _ turn | .stopWaited id _ turn _ | .stopCheck id _ turn | .stopAbort id turn
  | .stopEnd id turn => m.Of a id ∧ m.JobOf a turn.job
  | .takeTurn id _ job => m.Tame a id ∧ m.JobOf a job
  | .readDetected v | .lockScript v | .enter v => m.Tame a v.id ∧ m.JobOf a v.job
  | .act v actions => m.Of a v.id ∧ m.JobOf a v.job ∧ ∀ x ∈ actions, x.Secluded
  | .applyRequests v o | .conclude v o => m.Of a v.id ∧ o ≠ .selfDelete
  | .showFault v _ | .record v _ => m.Of a v.id
  | .parked job _ _ | .jobDone job => m.JobOf a job
  | _ => False

section

variable {m m' : Machine} {a : Uuid} {id : Nat}

theorem Within.mono {x : Instr} (h : x.Within m a) (E : m.Extends m') : x.Within m' a := by
  cases x <;> first
    | exact h
    | exact E.of h
    | exact E.jobOf h
    | exact ⟨E.of h.1, E.jobOf h.2⟩
    | exact ⟨E.tame h.1, E.jobOf h.2⟩
    | exact ⟨E.of h.1, E.jobOf h.2.1, h.2.2⟩
    | exact ⟨E.of h.1, h.2⟩

theorem within_request (h : m.Of a id) (q : Request) : ∀ x ∈ request id q, x.Within m a :=
  forall_request (P := (·.Within m a)) (fun _ => h) h h h h h h h q

theorem within_onInstance (h : m.Of a id) (i : Instance) (o : Op) :
    ∀ x ∈ (m.onInstance id i o).2.1, x.Within m a := by
  cases o with
  | setState target state =>
    exact List.forall_mem_append.mpr
      ⟨within_request h (.setState state), List.forall_mem_singleton.mpr trivial⟩
  | apiReset target =>
    exact List.forall_mem_append.mpr
      ⟨within_request h .reset, List.forall_mem_singleton.mpr trivial⟩
  | stop | reset => exact List.forall_mem_cons.mpr ⟨h, List.forall_mem_singleton.mpr trivial⟩
  | post | start | save | removeState | clearQueue | setVars =>
    exact List.forall_mem_singleton.mpr h
  | _ => exact List.forall_mem_nil _

theorem within_resetAll (h : m.Of a id) (wasRunning : Bool) :
    ∀ x ∈ resetAll id wasRunning, x.Within m a := by
  cases wasRunning <;> simp [resetAll, revokeGrants, Within, h]

theorem within_finishLoad (h : m.Of a id) (l : Loading) :
    ∀ x ∈ finishLoad id l, x.Within m a :=
  forall_finishLoad (P := (·.Within m a)) h h (fun _ _ => trivial) l

theorem within_freshStart (h : m.Of a id) (q : LoadRequest) :
    ∀ x ∈ freshStart id q, x.Within m a :=
  forall_freshStart (P := (·.Within m a)) h (fun _ => h) q

theorem within_restore (h : m.Of a id) (q : LoadRequest) (d : Document) :
    ∀ x ∈ restore id q d, x.Within m a :=
  forall_restore (P := (·.Within m a)) h (fun _ => h) (fun _ => h) (fun _ => h) (fun _ => h) (fun _ => h)
    (fun _ _ => trivial) q d

end

end Instr

end ScriptHost
