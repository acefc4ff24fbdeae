import ScriptHost.Model.Queue

/-!
# Queues that are filled by pushing

A queue that has been filled by pushing is within its capacity, holds at most
one timer, and its flag says whether it does (`Queue.Lawful`). Nothing else is
hidden in a queue: pushing its events into an empty one of its capacity makes
it again (`Lawful.refill`). Of a list that is pushed, later timers are left out, and
what is beyond the capacity (`events_pushAll`).
-/

namespace ScriptHost

namespace Queue

structure Lawful (q : Queue) : Prop where
  bounded : q.events.length ≤ q.capacity
  flag : q.timerPending = q.events.any Event.isTimer
  once : q.events.countP Event.isTimer ≤ 1

variable {q rest : Queue} {e : Event}

theorem lawful_empty (capacity : Nat) : (empty capacity).Lawful :=
  ⟨Nat.zero_le _, rfl, Nat.zero_le _⟩

theorem capacity_push : (q.push e).1.capacity = q.capacity := by
  unfold push
  split
  · rfl
  · split <;> rfl

theorem capacity_pushAll {l : List Event} : (q.pushAll l).capacity = q.capacity := by
  induction l generalizing q with
  | nil => rfl
  | cons e l ih => exact ih.trans capacity_push

theorem capacity_pop? (h : q.pop? = some (e, rest)) : rest.capacity = q.capacity := by
  unfold pop? at h
  split at h <;> cases h
  rfl

theorem push_accepted_iff (untimed : e.isTimer = false) :
    (q.push e).2 = .accepted ↔ q.length < q.capacity := by
  unfold push length
  split
  · simp; omega
  · simp [untimed]; omega

/-- An event that is pushed comes to stand last, if there is room and it is no second timer. -/
theorem push_fitting (hc : q.events.length < q.capacity)
    (ht : e.isTimer = true → q.timerPending = false) :
    (q.push e).1 = ⟨q.capacity, q.events ++ [e], q.timerPending || e.isTimer⟩ := by
  have once : (e.isTimer && q.timerPending) = false := by
    cases h : e.isTimer with
    | true => exact ht h
    | false => rfl
  simp only [push, if_neg (Nat.not_le.mpr hc), once, Bool.false_eq_true, if_false]

theorem push_full (hc : q.capacity ≤ q.events.length) : (q.push e).1 = q := by
  rw [push, if_pos hc]

theorem push_coalesced (ht : e.isTimer = true) (hp : q.timerPending = true) :
    (q.push e).1 = q := by
  simp only [push, ht, hp, Bool.and_self, if_true]
  split <;> rfl

/-- The events, every timer after the first left out. -/
def onceTimed : List Event → List Event
  | [] => []
  | e :: l => if e.isTimer then e :: l.filter (!·.isTimer) else e :: onceTimed l

/-- What a queue holds once a list has been pushed, if it was within its capacity. -/
theorem events_pushAll {l : List Event} (bounded : q.events.length ≤ q.capacity) :
    (q.pushAll l).events = (q.events ++
      if q.timerPending then l.filter (!·.isTimer) else onceTimed l).take q.capacity := by
  induction l generalizing q with
  | nil => simp [pushAll, onceTimed, List.take_of_length_le bounded]
  | cons e l ih =>
    rw [pushAll, List.foldl_cons, ← pushAll]
    by_cases hc : q.capacity ≤ q.events.length
    · rw [push_full hc, ih bounded, List.take_append_of_le_length hc,
        List.take_append_of_le_length hc]
    by_cases ht : e.isTimer = true → q.timerPending = false
    · rw [push_fitting (Nat.not_le.mp hc) ht, ih (by simpa using Nat.succ_le_of_lt (Nat.not_le.mp hc))]
      cases he : e.isTimer with
      | true => simp [onceTimed, he, ht he]
      | false => cases q.timerPending <;> simp [onceTimed, he]
    · obtain ⟨he, hp⟩ := Classical.not_imp.mp ht
      have hp : q.timerPending = true := Bool.not_eq_false _ ▸ hp
      rw [push_coalesced he hp, ih bounded]
      simp [hp, he]

/-- A timer that is pushed is dropped as a second one if there is room, but one is pending. -/
theorem push_coalesced_iff (timed : e.isTimer = true) :
    (q.push e).2 = .coalesced ↔ q.timerPending = true ∧ q.length < q.capacity := by
  unfold push length
  split
  · simp only [reduceCtorEq, false_iff]; omega
  · cases q.timerPending <;> simp [timed]; omega

namespace Lawful

theorem countP_eq_zero (L : q.Lawful) (h : q.timerPending = false) :
    q.events.countP Event.isTimer = 0 := by
  rw [List.countP_eq_zero]
  exact fun e he ht => List.any_eq_false.mp (L.flag.symm.trans h) e he ht

theorem push (L : q.Lawful) : (q.push e).1.Lawful := by
  by_cases hc : q.events.length < q.capacity
  · by_cases ht : e.isTimer = true → q.timerPending = false
    · rw [push_fitting hc ht]
      refine ⟨by simpa using Nat.succ_le_of_lt hc, by simp [L.flag], ?_⟩
      simp only [List.countP_append, List.countP_singleton]
      by_cases he : e.isTimer = true
      · simp [L.countP_eq_zero (ht he), he]
      · simpa [he] using L.once
    · obtain ⟨he, hp⟩ := Classical.not_imp.mp ht
      exact (push_coalesced he (Bool.not_eq_false _ ▸ hp)).symm ▸ L
  · exact (push_full (Nat.not_lt.mp hc)).symm ▸ L

theorem pushAll (L : q.Lawful) {l : List Event} : (q.pushAll l).Lawful := by
  induction l generalizing q with
  | nil => exact L
  | cons e l ih => exact ih L.push

theorem pop (L : q.Lawful) (h : q.pop? = some (e, rest)) : rest.Lawful := by
  unfold pop? at h
  split at h
  · cases h
  · next l hq =>
    cases h
    have bounded := L.bounded
    have flag := L.flag
    have once := L.once
    rw [hq] at bounded flag once
    simp only [List.length_cons, List.any_cons, List.countP_cons] at bounded flag once
    refine ⟨Nat.le_of_succ_le bounded, ?_, Nat.le_of_add_right_le once⟩
    -- If the event taken is a timer, then it was the only one.
    cases ht : e.isTimer with
    | true =>
      simp only [ht, if_true] at once
      simp only [Bool.not_true, Bool.and_false]
      exact (List.any_eq_false.mpr (List.countP_eq_zero.mp (by omega))).symm
    | false => simp [flag, ht]

/-- A lawful queue is made again from its events alone. -/
theorem refill (L : q.Lawful) : (empty q.capacity).pushAll q.events = q := by
  have onward : ∀ (r l : List Event), (l ++ r).length ≤ q.capacity →
      (l ++ r).countP Event.isTimer ≤ 1 → Queue.pushAll ⟨q.capacity, l, l.any Event.isTimer⟩ r =
        ⟨q.capacity, l ++ r, (l ++ r).any Event.isTimer⟩ := by
    intro r
    induction r with
    | nil => intro l _ _; simp [Queue.pushAll]
    | cons e r ih =>
      intro l hc ht
      have room : l.length < q.capacity := by
        simp only [List.length_append, List.length_cons] at hc
        omega
      have first : e.isTimer = true → l.any Event.isTimer = false := fun he => by
        simp only [List.countP_append, List.countP_cons, he, if_true] at ht
        exact List.any_eq_false.mpr (List.countP_eq_zero.mp (by omega))
      have step : (Queue.push ⟨q.capacity, l, l.any Event.isTimer⟩ e).1 =
          ⟨q.capacity, l ++ [e], (l ++ [e]).any Event.isTimer⟩ := by
        rw [push_fitting room first]
        simp
      have := ih (l ++ [e]) (by simpa using hc) (by simpa using ht)
      simp only [Queue.pushAll, List.foldl_cons, step] at this ⊢
      simpa using this
  have := onward q.events [] L.bounded L.once
  simp only [List.nil_append, List.any_nil, ← L.flag] at this
  exact this

end Lawful

end Queue

end ScriptHost
