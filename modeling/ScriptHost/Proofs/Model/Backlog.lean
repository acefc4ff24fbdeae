import ScriptHost.Proofs.Model.Queue

/-!
# A queue beside a plain list

A queue caches in a flag whether a timer is pending. A backlog has no flag: it
is the list of the pending events, in which the timers are looked for whenever
one is pushed. Whatever is done to both, each is seen to do the same
(`Queue.observe_eq_backlog`), so that what is plain of a backlog holds of a queue:
what is accepted comes out once and in order, unless it is cleared away.
-/

namespace ScriptHost

namespace Queue

/-- What may be done to a queue. -/
inductive Deed where
  | push (e : Event)
  | pop
  | clear

/-- What is answered: what became of an event, or the event taken out. -/
inductive Answer where
  | posted (p : Posting)
  | popped (e : Option Event)
  | cleared

def answer (q : Queue) : Deed → Answer
  | .push e => .posted (q.push e).2
  | .pop => .popped (q.pop?.map (·.1))
  | .clear => .cleared

def after (q : Queue) : Deed → Queue
  | .push e => (q.push e).1
  | .pop => (q.pop?.map (·.2)).getD q
  | .clear => q.clear

/-- The queue after several deeds, the earliest first. -/
def afterAll (q : Queue) (deeds : List Deed) : Queue := deeds.foldl after q

/-- What is seen of a queue: each answer, and the length and the pending events after it. -/
def observe (q : Queue) : List Deed → List (Answer × Nat × List Event)
  | [] => []
  | d :: deeds =>
    (q.answer d, (q.after d).length, (q.after d).events) :: observe (q.after d) deeds

end Queue

/-! ## The list -/

/-- The pending events alone, oldest first, and the bound on them. -/
structure Backlog where
  capacity : Nat
  pending : List Event

namespace Backlog

open Queue (Deed Answer)

/-- At the bound an event is turned away whatever it is; below it, a timer if one is pending. -/
def push (b : Backlog) (e : Event) : Backlog × Posting :=
  if b.capacity ≤ b.pending.length then (b, .full)
  else if e.isTimer = true ∧ ∃ p ∈ b.pending, p.isTimer = true then (b, .coalesced)
  else ({ b with pending := b.pending ++ [e] }, .accepted)

def answer (b : Backlog) : Deed → Answer
  | .push e => .posted (b.push e).2
  | .pop => .popped b.pending.head?
  | .clear => .cleared

def after (b : Backlog) : Deed → Backlog
  | .push e => (b.push e).1
  | .pop => { b with pending := b.pending.tail }
  | .clear => { b with pending := [] }

def observe (b : Backlog) : List Deed → List (Answer × Nat × List Event)
  | [] => []
  | d :: deeds =>
    (b.answer d, (b.after d).pending.length, (b.after d).pending) :: observe (b.after d) deeds

end Backlog

namespace Queue

variable {q : Queue} {d : Deed} {deeds : List Deed}

/-- The pending events of a queue, and its bound. -/
def backlog (q : Queue) : Backlog := ⟨q.capacity, q.events⟩

theorem capacity_after : (q.after d).capacity = q.capacity := by
  cases d with
  | push e => exact capacity_push
  | clear => rfl
  | pop =>
    unfold after
    cases h : q.pop? with
    | none => rfl
    | some taken => exact capacity_pop? h

theorem capacity_afterAll : (q.afterAll deeds).capacity = q.capacity := by
  induction deeds generalizing q with
  | nil => rfl
  | cons d deeds ih => exact ih.trans capacity_after

theorem Lawful.after (L : q.Lawful) : (q.after d).Lawful := by
  cases d with
  | push e => exact L.push
  | clear => exact lawful_empty q.capacity
  | pop =>
    unfold Queue.after
    cases h : q.pop? with
    | none => exact L
    | some taken => exact L.pop h

theorem Lawful.afterAll (L : q.Lawful) : (q.afterAll deeds).Lawful := by
  induction deeds generalizing q with
  | nil => exact L
  | cons d deeds ih => exact ih L.after

/-- The flag of a lawful queue stands for a look at the list. -/
theorem Lawful.push_backlog (L : q.Lawful) (e : Event) :
    q.backlog.push e = ((q.push e).1.backlog, (q.push e).2) := by
  have flag : (e.isTimer && q.timerPending) = true ↔
      e.isTimer = true ∧ ∃ p ∈ q.events, p.isTimer = true := by
    rw [Bool.and_eq_true, L.flag, List.any_eq_true]
  unfold Backlog.push Queue.push backlog
  simp only [← flag]
  split
  · rfl
  · split <;> rfl

theorem Lawful.answer_backlog (L : q.Lawful) : q.backlog.answer d = q.answer d := by
  cases d with
  | push e => exact congrArg (fun r => Answer.posted r.2) (L.push_backlog e)
  | clear => rfl
  | pop =>
    unfold Backlog.answer Queue.answer pop? backlog
    cases q.events <;> rfl

theorem Lawful.after_backlog (L : q.Lawful) : q.backlog.after d = (q.after d).backlog := by
  cases d with
  | push e => exact congrArg Prod.fst (L.push_backlog e)
  | clear => rfl
  | pop =>
    unfold Backlog.after Queue.after pop? backlog
    cases h : q.events <;> simp [h]

theorem Lawful.observe_backlog (L : q.Lawful) : q.backlog.observe deeds = q.observe deeds := by
  induction deeds generalizing q with
  | nil => rfl
  | cons d deeds ih =>
    rw [Backlog.observe, Queue.observe, L.answer_backlog, L.after_backlog, ih L.after]
    rfl

/-! ## What goes in and what comes out -/

/-- The events that a deed puts in. -/
def enters (q : Queue) : Deed → List Event
  | .push e => if (q.push e).2 = .accepted then [e] else []
  | _ => []

/-- The events that a deed takes out, and whether it was by taking the oldest. -/
def leaves (q : Queue) : Deed → List (Event × Bool)
  | .push _ => []
  | .pop => q.events.head?.toList.map (·, true)
  | .clear => q.events.map (·, false)

def entersAll (q : Queue) : List Deed → List Event
  | [] => []
  | d :: deeds => q.enters d ++ entersAll (q.after d) deeds

def leavesAll (q : Queue) : List Deed → List (Event × Bool)
  | [] => []
  | d :: deeds => q.leaves d ++ leavesAll (q.after d) deeds

/-- An event that is turned away leaves no trace. -/
theorem push_rejected {e : Event} (h : (q.push e).2 ≠ .accepted) : (q.push e).1 = q := by
  unfold push at h ⊢
  split
  · rfl
  · split
    · rfl
    · simp_all

theorem push_accepted {e : Event} (h : (q.push e).2 = .accepted) :
    (q.push e).1.events = q.events ++ [e] := by
  unfold push at h ⊢
  split
  · simp_all
  · split
    · simp_all
    · rfl

/-- What was pending and what is put in is what is taken out and what is pending then. -/
theorem events_after : q.events ++ q.enters d = (q.leaves d).map (·.1) ++ (q.after d).events := by
  cases d with
  | push e =>
    by_cases h : (q.push e).2 = .accepted
    · simp [enters, leaves, after, h, push_accepted h]
    · simp [enters, leaves, after, h, push_rejected h]
  | clear => simp [enters, leaves, after, clear, empty, Function.comp_def]
  | pop =>
    unfold enters leaves after pop?
    cases h : q.events <;> simp [h]

theorem events_afterAll : q.events ++ q.entersAll deeds =
    (q.leavesAll deeds).map (·.1) ++ (q.afterAll deeds).events := by
  induction deeds generalizing q with
  | nil => simp [entersAll, leavesAll, afterAll]
  | cons d deeds ih =>
    calc q.events ++ q.entersAll (d :: deeds)
      _ = (q.leaves d).map (·.1) ++ ((q.after d).events ++ (q.after d).entersAll deeds) := by
        rw [entersAll, ← List.append_assoc, events_after, List.append_assoc]
      _ = (q.leavesAll (d :: deeds)).map (·.1) ++ (q.afterAll (d :: deeds)).events := by
        rw [ih, leavesAll, List.map_append, List.append_assoc]
        rfl

/-- The event that an answer hands out. -/
def Answer.taken? : Answer → Option Event
  | .popped e => e
  | _ => none

theorem taken_answer : (q.answer d).taken?.toList = ((q.leaves d).filter (·.2)).map (·.1) := by
  cases d with
  | push e => rfl
  | clear => simp [answer, Answer.taken?, leaves]
  | pop =>
    unfold answer Answer.taken? leaves pop?
    cases q.events <;> simp

/-- The events that the answers hand out are those that left by being the oldest. -/
theorem taken_observe : (q.observe deeds).filterMap (·.1.taken?) =
    ((q.leavesAll deeds).filter (·.2)).map (·.1) := by
  induction deeds generalizing q with
  | nil => rfl
  | cons d deeds ih =>
    rw [leavesAll, List.filter_append, List.map_append, ← taken_answer, ← ih, observe,
      List.filterMap_cons]
    cases (q.answer d).taken? <;> rfl

/-- A queue of any capacity to which anything has been done. All that is seen of it on the way is
what is seen of a backlog: the answers, the lengths and the pending events. It is within its
capacity, with at most one timer, which the flag tells. The events that were accepted are, in order,
those that have left it and those that are pending; of those that have left, the ones that were not
cleared away are those that were handed out. And an event that is turned away leaves no trace. -/
theorem observe_eq_backlog (capacity : Nat) (deeds : List Deed) :
    (empty capacity).observe deeds = (Backlog.mk capacity []).observe deeds ∧
    ((empty capacity).afterAll deeds).length ≤ capacity ∧
    ((empty capacity).afterAll deeds).events.countP Event.isTimer ≤ 1 ∧
    (((empty capacity).afterAll deeds).timerPending = true ↔
      ∃ p ∈ ((empty capacity).afterAll deeds).events, p.isTimer = true) ∧
    (empty capacity).entersAll deeds = ((empty capacity).leavesAll deeds).map (·.1) ++
      ((empty capacity).afterAll deeds).events ∧
    ((empty capacity).observe deeds).filterMap (·.1.taken?) =
      (((empty capacity).leavesAll deeds).filter (·.2)).map (·.1) ∧
    ∀ e, (((empty capacity).afterAll deeds).push e).2 ≠ .accepted →
      (((empty capacity).afterAll deeds).push e).1 = (empty capacity).afterAll deeds := by
  have L : ((empty capacity).afterAll deeds).Lawful := (lawful_empty capacity).afterAll
  have bounded : ((empty capacity).afterAll deeds).length ≤ capacity := by
    have := L.bounded
    rwa [capacity_afterAll] at this
  have kept : (empty capacity).entersAll deeds = ((empty capacity).leavesAll deeds).map (·.1) ++
      ((empty capacity).afterAll deeds).events := events_afterAll (q := empty capacity)
  refine ⟨(lawful_empty capacity).observe_backlog.symm, bounded, L.once, ?_, kept, taken_observe,
    fun _ => push_rejected⟩
  rw [L.flag, List.any_eq_true]

end Queue

end ScriptHost
