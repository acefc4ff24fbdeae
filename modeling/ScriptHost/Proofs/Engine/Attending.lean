import Mathlib.Logic.Relation
import ScriptHost.Proofs.Engine.Course
import ScriptHost.Proofs.Engine.Turning

/-!
# Workers of an instance

The jobs of an instance are carried out by any number of workers, in any order
and between whatever else happens on the host, while nobody but these workers
acts on the instance (`System.Attends`). How far they have come is told by a
`Work`; what it comes to by one thing done for the instance (`Work.Less`)
cannot go on for ever (`Work.Sound.acc`).
-/

namespace ScriptHost

/-- What the queued events are answered with, the named state being `state` at first. -/
def answers : String → List Event → List Sight
  | _, [] => []
  | state, e :: l => e.answer state ++ answers (e.switch state) l

/-- The named state once the events have been taken. -/
def switches (state : String) (l : List Event) : String := l.foldl (fun s e => e.switch s) state

/-! ## Jobs that wait -/

namespace Core

variable {c : Core} {id k n : Nat} {j : Job} {s : Slot}

/-- The number of jobs of the instance that wait in the pool. -/
def waiting (c : Core) (id : Nat) : Nat :=
  c.jobs.countP fun j => j.owner == id && j.phase == .queued

/-- A job that is begun waits no more. -/
theorem waiting_begun (id : Nat) (hj : c.job? n = some j) (hq : j.phase = .queued) :
    (c.rephase n .running).waiting id + (if j.owner = id then 1 else 0) = c.waiting id := by
  have pos := job?_pos hj
  have hn : c.jobs[n - 1]? = some j := by simpa [job?, Nat.pos_iff_ne_zero.mp pos] using hj
  obtain ⟨hlt, rfl⟩ := List.getElem?_eq_some_iff.mp hn
  have least := List.boole_getElem_le_countP
    (p := fun j : Job => j.owner == id && j.phase == .queued) hlt
  simp only [waiting, rephase, List.modify_eq_set, hn, Option.getD_some, List.countP_set hlt,
    hq] at least ⊢
  split <;> simp_all

/-- A turn that is over leaves the instance without one only if there is no work left. -/
theorem slots_handOn {s₀ : Slot} {ticket : Nat} (hs : c.slots[id]? = some s₀)
    (ho : s.owns ticket = true) : ∃ s', (c.revise id (s.handOn ticket)).slots[id]? = some s' ∧
      s'.queue = s.queue ∧ s'.running = s.running ∧ (s.hasWork = false → s'.current = none) := by
  refine ⟨_, (slots_revise hs).trans (if_pos rfl), ?_⟩
  unfold Slot.handOn
  rw [if_pos ho]
  cases hw : s.hasWork with
  | true => exact ⟨rfl, rfl, nofun⟩
  | false => exact ⟨rfl, rfl, fun _ => rfl⟩

end Core

/-! ## Workers -/

namespace Instr

/-- Sections that take or finish a turn of the instance. -/
def ofTurn (id : Nat) : Instr → Bool
  | .takeTurn k _ _ | .finishTurn k _ => k == id
  | _ => false

/-- Sections that take a turn of the instance. -/
def takes (id : Nat) : Instr → Bool
  | .takeTurn k _ _ => k == id
  | _ => false

theorem takes_of_ofTurn {a : Instr} {id : Nat} (h : a.ofTurn id = false) : a.takes id = false := by
  cases a <;> first | rfl | exact h

theorem ofTurn_iff {a : Instr} {id : Nat} :
    a.ofTurn id = true ↔ ∃ ticket, a.turn? = some (id, ticket) := by
  cases a <;> simp [ofTurn, turn?]

end Instr

namespace Thread

/-- The thread is at a turn of the instance. -/
def worksFor (id : Nat) (t : Thread) : Bool := t.agenda.any (·.ofTurn id)

/-- The thread is at no turn of the instance, unless it has just been given a job of it. -/
def Fresh (id : Nat) (t : Thread) : Prop :=
  t.worksFor id = false ∨ ∃ ticket n rest r, t = ⟨.takeTurn id ticket n :: rest, r⟩ ∧
    rest.any (·.ofTurn id) = false

end Thread

/-- A section of no turn that leaves the jobs of an instance that wait, or runs jobs of the pool,
begins no turn of the instance, or runs one of its jobs. -/
theorem Effect.begins {m : Machine} {a : Instr} {c : Core} {next : List Instr} {id : Nat}
    (E : Effect m a c next) (clear : a.ofTurn id = false)
    (beside : (∃ turns ran, a = .run turns ran) ∨ c.waiting id = m.core.waiting id) :
    (c.waiting id = m.core.waiting id ∧ next.any (·.ofTurn id) = false) ∨
      ∃ ticket n turns ran, c.waiting id + 1 = m.core.waiting id ∧
        next = [.takeTurn id ticket n, .jobDone n, .run turns ran] := by
  have unbegun : (next.filterMap Instr.turn? = [] ∨
      next.filterMap Instr.turn? = [a].filterMap Instr.turn?) →
      c.waiting id = m.core.waiting id ∧ next.any (·.ofTurn id) = false := by
    refine fun h => ⟨?_, List.any_eq_false.mpr fun b hb ht => ?_⟩
    · rcases beside.symm with same | ⟨turns, ran, rfl⟩
      · exact same
      · cases E with
        | silent => rfl
        | absent => rfl
        | run => rcases h with h | h <;> cases h
        | fresh he => rcases he with he | he <;> cases he
    obtain ⟨ticket, hx⟩ := Instr.ofTurn_iff.mp ht
    have mem : (id, ticket) ∈ next.filterMap Instr.turn? := List.mem_filterMap.mpr ⟨b, hb, hx⟩
    rcases h with h | h
    · rw [h] at mem
      cases mem
    · rw [h, List.mem_filterMap] at mem
      obtain ⟨a', ha, hx⟩ := mem
      obtain rfl := List.mem_singleton.mp ha
      exact Bool.false_ne_true (clear.symm.trans (Instr.ofTurn_iff.mpr ⟨ticket, hx⟩))
  rcases E.turns_next with e | e | ⟨n, j, turns, ran, hj, hq, hc, rfl⟩
  · exact .inl (unbegun (.inl e))
  · exact .inl (unbegun (.inr e))
  · have begun := Core.waiting_begun id hj hq
    rw [← hc] at begun
    by_cases ho : j.owner = id
    · subst ho
      exact .inr ⟨j.ticket, n, turns, ran, by simpa using begun, rfl⟩
    · exact .inl ⟨by simpa [ho] using begun, by simp [Instr.ofTurn, ho]⟩

namespace System

/-- The section, from which the machine becomes `m`, has nothing to do with the instance: it
leaves the instance and the jobs of it that wait, nothing is posted to it, and no collaborator
calls back. -/
structure Aside (id : Nat) (s : Section) (m : Machine) : Prop where
  same : m.get? id = s.machine.get? id
  waiting : m.core.waiting id = s.machine.core.waiting id
  unposted : ∀ e, s.instr ≠ .post id e
  unhooked : m.hooks = ([], [], [])

/-- A step while nobody but its workers acts on the instance: whoever does a section works for
the instance, or runs jobs of the pool, or does something that has nothing to do with the instance.
The flag tells whether a job of the instance is begun or carried on. -/
inductive Attends (id : Nat) : Bool → System → List Section → System → Prop where
  | call {m : Machine} {ts : List Thread} (o : Op) :
      Attends id false ⟨m, ts⟩ [] ⟨m, ts ++ [.ofOp o]⟩
  | refuse {m : Machine} {ts : List Thread} (b : Bool) : m.abortsRunning = false →
      Attends id false ⟨m, ts⟩ [] ⟨{ m with refusesCancel := b }, ts⟩
  | claim {m : Machine} {ts : List Thread} {n : Nat} {j : Job} :
      m.job? n = some j → j.phase = .queued →
      Attends id (j.owner == id) ⟨m, ts⟩ []
        ⟨m.setPhase n .running, ts ++ [.ofJob j.owner j.ticket n]⟩
  | move {m m' : Machine} {ts : List Thread} {k : Nat} {t t' : Thread} {a : Instr} :
      ts[k]? = some t → t.agenda.head? = some a → t.step? m = some (m', t') →
      t.worksFor id = true ∨ (∃ turns ran, a = .run turns ran) ∨ Aside id ⟨m, a⟩ m' →
      Attends id (t.worksFor id || m'.core.waiting id != m.core.waiting id) ⟨m, ts⟩ [⟨m, a⟩]
        ⟨m', ts.set k t'⟩

/-- Any number of such steps. -/
inductive Attended (id : Nat) (S : System) : List Section → System → Prop where
  | refl : Attended id S [] S
  | snoc {h l : List Section} {T U : System} {b : Bool} : Attended id S h T → Attends id b T l U →
      Attended id S (h ++ l) U

/-- A job of the instance is begun or carried on, if only after other things have happened. -/
def Serves (id : Nat) (S T : System) : Prop :=
  ∃ U l, Relation.ReflTransGen (fun S T => ∃ l, Attends id false S l T) S U ∧ Attends id true U l T

/-- A job of the instance waits, or a worker is at it. -/
def Busy (id : Nat) (S : System) : Prop :=
  (∃ n j, S.machine.job? n = some j ∧ j.owner = id ∧ j.phase = .queued) ∨
    ∃ t ∈ S.threads, t.worksFor id = true

theorem Attends.step {S T : System} {id : Nat} {b : Bool} {l : List Section}
    (A : Attends id b S l T) : S.Step l T := by
  cases A with
  | call o => exact .call o
  | refuse b h => exact .refuse b h
  | claim hj hq => exact .claim hj hq
  | move hk ha hs _ => exact .move hk ha hs

end System

/-! ## How far the work has come -/

/-- How far the work on an instance has come: what it is at present, the thread that is at the
outstanding turn and what that has still to do before the turn is finished, what is still to be seen
of the turn, and what the instance is after it. -/
structure Work where
  aspect : Aspect
  slot : Slot
  turn : Option (Nat × List Instr)
  owed : List Sight
  goal : Aspect

namespace Work

variable {w w' w'' : Work} {id : Nat} {h h' : List Section}

/-- What is still to be seen. -/
def left (w : Work) : List Sight := w.owed ++ answers w.goal.state w.slot.queue.events

/-- The named state that it comes to. -/
def final (w : Work) : String := switches w.goal.state w.slot.queue.events

/-- The sections take some of the queued events, and answer some of what is left. -/
structure Passes (id : Nat) (h : List Section) (w w' : Work) : Prop where
  taken : (h.flatMap (Section.taken id)).map (·.2) ++ w'.slot.queue.events = w.slot.queue.events
  sights : h.flatMap (Section.sights id) ++ w'.left = w.left
  final : w'.final = w.final

theorem Passes.trans (P : Passes id h w w') (P' : Passes id h' w' w'') :
    Passes id (h ++ h') w w'' where
  taken := by rw [List.flatMap_append, List.map_append, List.append_assoc, P'.taken, P.taken]
  sights := by rw [List.flatMap_append, List.append_assoc, P'.sights, P.sights]
  final := P'.final.trans P.final

theorem Passes.of_nil (taken : h.flatMap (Section.taken id) = [])
    (sights : h.flatMap (Section.sights id) = []) : Passes id h w w :=
  ⟨by rw [taken]; rfl, by rw [sights]; rfl, rfl⟩

/-- What is begun comes to its end. -/
def Sound (id : Nat) (w : Work) : Prop :=
  ∀ k l, w.turn = some (k, l) → w.aspect.Leads id l w.owed w.goal

/-- What work comes to by one thing done for the instance, with a bound on the jobs that are still
to be begun: an event is taken, the turn is finished, a section of the turn is done, or a job
is begun or found to be stale. -/
inductive Less (id : Nat) : Work × Nat → Work × Nat → Prop where
  | take {w w' : Work} {M M' : Nat} : w'.Sound id →
      w'.slot.queue.events.length < w.slot.queue.events.length → Less id (w', M') (w, M)
  | finish {w w' : Work} {M M' : Nat} : w.turn ≠ none → w'.turn = none →
      w'.slot.queue.events.length = w.slot.queue.events.length → Less id (w', M') (w, M)
  | pass {w w' : Work} {M M' k : Nat} {m : Machine} {r : Reply} {a : Instr} {l : List Instr} :
      w.turn = some (k, a :: l) → w'.turn = some (k, (a.exec m r).next ++ l) →
      m.Presents id w.aspect → (a.exec m r).machine.Presents id w'.aspect → w'.slot = w.slot →
      Less id (w', M') (w, M)
  | job {w : Work} {M M' : Nat} : M' < M → Less id (w, M') (w, M)

/-- Work comes to its end if it does so once an event has been taken, once the turn has been
finished, and once a section of the turn has been done. -/
theorem acc_of (shorter : ∀ w' M', w'.Sound id →
      w'.slot.queue.events.length < w.slot.queue.events.length → Acc (Less id) (w', M'))
    (finished : w.turn ≠ none → ∀ w' M', w'.turn = none →
      w'.slot.queue.events.length = w.slot.queue.events.length → Acc (Less id) (w', M'))
    (passed : ∀ k a l, w.turn = some (k, a :: l) → ∀ m r, m.Presents id w.aspect → ∀ w' M',
      w'.turn = some (k, (a.exec m r).next ++ l) → (a.exec m r).machine.Presents id w'.aspect →
      w'.slot = w.slot → Acc (Less id) (w', M')) (M : Nat) : Acc (Less id) (w, M) := by
  induction M using Nat.strong_induction_on with
  | h M ih =>
    refine ⟨_, fun y h => ?_⟩
    cases h with
    | take sound h => exact shorter _ _ sound h
    | finish ht ht' hq => exact finished ht _ _ ht' hq
    | pass ht ht' P P' hs => exact passed _ _ _ ht _ _ P _ _ ht' P' hs
    | job h => exact ih _ h

/-- Work comes to its end: first by the number of queued events, then by what the turn at work has
still to do, then by the number of jobs that are still to be begun. -/
theorem Sound.acc (h : w.Sound id) (M : Nat) : Acc (Less id) (w, M) := by
  generalize hN : w.slot.queue.events.length = N
  induction N using Nat.strong_induction_on generalizing w M with
  | h N ih =>
    have shorter : ∀ {w : Work}, w.slot.queue.events.length = N → ∀ w' M', w'.Sound id →
        w'.slot.queue.events.length < w.slot.queue.events.length → Acc (Less id) (w', M') :=
      fun hw w' M' sound lt => ih _ (hw ▸ lt) sound M' rfl
    have idle : ∀ {w : Work} M, w.turn = none → w.slot.queue.events.length = N →
        Acc (Less id) (w, M) := fun M ht hw =>
      acc_of (shorter hw) (fun h => absurd ht h) (fun k a l h => by cases ht.symm.trans h) M
    have turn : ∀ {f l s g}, Aspect.Leads id f l s g → ∀ {w : Work} M k, w.aspect = f →
        w.turn = some (k, l) → w.slot.queue.events.length = N → Acc (Less id) (w, M) := by
      intro f l s g lead
      induction lead with
      | nil =>
        intro w M k hf ht hw
        exact acc_of (shorter hw) (fun _ w' M' ht' hq => idle M' ht' (hq.trans hw))
          (fun k' a l h => by cases ht.symm.trans h) M
      | cons D _ ih =>
        intro w M k hf ht hw
        refine acc_of (shorter hw) (fun _ w' M' ht' hq => idle M' ht' (hq.trans hw))
          (fun k' a l h m r P w' M' ht' P' hs => ?_) M
        cases ht.symm.trans h
        subst hf
        exact ih m r P M' k (P'.unique (D.after m r P)) ht' (hs ▸ hw)
    cases ht : w.turn with
    | none => exact idle M ht hN
    | some p => exact turn (h p.1 p.2 ht) M p.1 rfl ht hN

end Work

end ScriptHost
