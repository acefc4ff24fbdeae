import ScriptHost.Pool.Ticket
import Mathlib.Data.List.Basic

/-!
# The race for a ticket

A job is run or taken back, and neither twice: the phase leaves `queued` by one
compare and exchange, of the worker or of a holder, and every other thread finds
that it has come too late. `Access.Fits` says which access a thread may be at
while the ticket is as it is; that no thread is at any other (`Race.Sound`) gives
what each caller of the pool may rely on (`Race.job_life_cycle`).
-/

namespace ScriptHost

/-! ## Where a thread may be -/

namespace Access

/-- Accesses of the worker. -/
def ofWorker : Access → Bool
  | .claim _ | .body _ | .storeDone | .tellDone | .left _ => true
  | _ => false

/-- Accesses of a holder that has taken the job back, up to the return of a cancel. -/
def won : Access → Bool
  | .storeCancelled _ | .tellCancelled _ | .cancelReturned true => true
  | _ => false

/-- How many accesses a thread that has decided the race still makes until those who wait are
told, the telling included. -/
def owed : Access → Nat
  | .body _ => 3
  | .storeDone | .storeCancelled _ => 2
  | .tellDone | .tellCancelled _ => 1
  | _ => 0

/-- A thread may be at the access while the ticket is like this. -/
def Fits (t : Ticket) : Access → Prop
  | .claim _ => t.phase = .queued ∨ t.phase = .cancelled
  | .body _ | .storeDone => t.phase = .running
  | .tellDone => t.phase = .done
  | .left entered => t.phase = if entered then .done else .cancelled
  | .take _ => True
  | .storeCancelled _ | .tellCancelled _ => t.phase = .cancelled
  | .cancelReturned ok => if ok then t.phase = .cancelled else t.phase ≠ .queued
  | .look => t.phase ≠ .queued
  | .trip => t.phase = .running ∨ t.phase = .done
  | .abortReturned => t.phase = .done ∨ t.phase = .cancelled ∨ t.interrupted = true

end Access

namespace Ticket

variable {t : Ticket} {a b : Access}

theorem ofWorker_access : (t.access a).2.ofWorker = a.ofWorker := by
  cases a <;> simp only [access] <;> (try split) <;> (try split) <;> rfl

/-- A thread comes from an access that fits to one that fits. -/
theorem fits_access (h : a.Fits t) : (t.access a).2.Fits (t.access a).1 := by
  cases a with
  | claim ending =>
    simp only [access]
    split
    · rfl
    · next hq => exact h.resolve_left hq
  | take aborting =>
    simp only [access]
    split
    · rfl
    · next hq => cases aborting <;> exact hq
  | look =>
    simp only [access]
    split
    · next hr => exact .inl hr
    · next hr =>
      simp only [Access.Fits] at h ⊢
      cases hp : t.phase <;> simp_all
  | tellCancelled aborting =>
    cases aborting
    · exact h
    · exact .inr (.inl h)
  | trip => exact .inr (.inr rfl)
  | body | storeDone | tellDone | left | storeCancelled | cancelReturned | abortReturned =>
    first | exact h | rfl

/-- What fits goes on fitting while another thread makes an access, unless both are workers. -/
theorem fits_other (h : b.Fits t) (ha : a.Fits t)
    (apart : a.ofWorker = true → b.ofWorker = false) : b.Fits (t.access a).1 := by
  cases a with
  | claim ending =>
    simp only [access]
    split
    · next hq => cases b <;> simp_all [Access.Fits, Access.ofWorker]
    · exact h
  | take aborting =>
    simp only [access]
    split
    · next hq =>
      cases b with
      | left entered => cases entered <;> simp_all [Access.Fits]
      | _ => simp_all [Access.Fits]
    · exact h
  | storeDone =>
    have hr : t.phase = .running := ha
    cases b <;> simp_all [access, Access.Fits, Access.ofWorker]
  | storeCancelled aborting =>
    have same : ({ t with phase := .cancelled } : Ticket) = t := by
      rw [← show t.phase = .cancelled from ha]
    rw [access, same]
    exact h
  | trip =>
    cases b with
    | abortReturned => exact .inr (.inr rfl)
    | _ => exact h
  | body | tellDone | left | tellCancelled | cancelReturned | look | abortReturned =>
    cases b <;> exact h

/-- The last phases are not left. -/
theorem phase_access_of_last (ha : a.Fits t) (h : t.phase = .done ∨ t.phase = .cancelled) :
    (t.access a).1.phase = t.phase := by
  have late : t.phase ≠ .queued := by rcases h with h | h <;> simp [h]
  cases a with
  | claim | take =>
    simp only [access]
    rw [if_neg late]
  | storeDone =>
    have hr : t.phase = .running := ha
    simp [hr] at h
  | storeCancelled => exact (show t.phase = .cancelled from ha).symm
  | _ => rfl

theorem finished_access (h : t.finished = true) : (t.access a).1.finished = true := by
  cases a <;> simp only [access] <;> (try split) <;> exact h

end Ticket

/-! ## The course of a race -/

/-- An access that a thread has made, with the phase that it found. -/
structure Touch where
  thread : Nat
  access : Access
  phase : Phase
  deriving DecidableEq, Repr

namespace Touch

/-- The worker enters the body. -/
def enters (x : Touch) : Bool :=
  match x.access with
  | .claim _ => x.phase == .queued
  | _ => false

/-- The worker leaves without having entered the body. -/
def turnsAway (x : Touch) : Bool :=
  match x.access with
  | .claim _ => x.phase != .queued
  | _ => false

/-- A cancel succeeds, be it a direct one or that of an abort. -/
def takesBack (x : Touch) : Bool :=
  match x.access with
  | .take _ => x.phase == .queued
  | _ => false

end Touch

namespace Race

/-- What the next access of a thread will be seen as. -/
def touch (r : Race) (i : Nat) : List Touch :=
  match r.threads[i]? with
  | none => []
  | some a => [⟨i, a, r.ticket.phase⟩]

/-- The accesses made in the order of a schedule. -/
def course : Race → List Nat → List Touch
  | _, [] => []
  | r, i :: schedule => r.touch i ++ (r.step i).course schedule

/-- A race that has come to `r` by the accesses `c`: one thread is the worker, every thread is
where it may be, and the phase tells how the race was decided. -/
structure Sound (r : Race) (c : List Touch) : Prop where
  holders : ∀ (i : Nat) (a : Access), r.threads[i]? = some a → a.ofWorker = true → i = 0
  fits : ∀ (i : Nat) (a : Access), r.threads[i]? = some a → Access.Fits r.ticket a
  entered : c.countP Touch.enters =
    if r.ticket.phase = .running ∨ r.ticket.phase = .done then 1 else 0
  taken : c.countP Touch.takesBack = if r.ticket.phase = .cancelled then 1 else 0
  away : c.any Touch.turnsAway = true → r.ticket.phase = .cancelled
  winner : ∀ (i : Nat) (a : Access), r.threads[i]? = some a → a.won = true →
    ∃ x ∈ c, x.takesBack = true ∧ x.thread = i
  finished : r.ticket.finished = true → r.ticket.phase = .done ∨ r.ticket.phase = .cancelled
  interrupted : r.ticket.interrupted = true → r.ticket.phase = .running ∨ r.ticket.phase = .done

section

variable {r : Race} {c : List Touch} {i j : Nat} {a b : Access}

theorem step_of_some (h : r.threads[i]? = some a) :
    r.step i = ⟨(r.ticket.access a).1, r.threads.set i (r.ticket.access a).2⟩ := by
  simp only [step, h]

theorem step_of_none (h : r.threads[i]? = none) : r.step i = r := by
  simp only [step, h]

theorem run_cons (r : Race) (i : Nat) (schedule : List Nat) :
    r.run (i :: schedule) = (r.step i).run schedule := rfl

/-- A thread after a step is the one that moved, or as it was. -/
theorem threads_step (h : r.threads[i]? = some a) (hj : (r.step i).threads[j]? = some b) :
    (j = i ∧ b = (r.ticket.access a).2) ∨ (j ≠ i ∧ r.threads[j]? = some b) := by
  rw [step_of_some h] at hj
  have hlt := (List.getElem?_eq_some_iff.mp h).1
  by_cases he : j = i
  · subst he
    simp only [List.getElem?_set_self hlt, Option.some.injEq] at hj
    exact .inl ⟨rfl, hj.symm⟩
  · simp only [List.getElem?_set_ne (Ne.symm he)] at hj
    exact .inr ⟨he, hj⟩

/-- At the start there is the worker, and holders that are about to take the job back. -/
theorem start_cases {ending : Ending} {aborting : List Bool}
    (h : (start ending aborting).threads[i]? = some a) :
    (i = 0 ∧ a = .claim ending) ∨ ∃ aborting, a = .take aborting := by
  cases i with
  | zero => exact .inl ⟨rfl, by simpa [start] using h.symm⟩
  | succ i =>
    simp only [start, List.getElem?_cons_succ, List.getElem?_map, Option.map_eq_some_iff] at h
    obtain ⟨x, -, rfl⟩ := h
    exact .inr ⟨x, rfl⟩

theorem start_sound (ending : Ending) (aborting : List Bool) :
    (start ending aborting).Sound [] where
  holders i a h hw := by
    rcases start_cases h with ⟨rfl, -⟩ | ⟨x, rfl⟩
    · rfl
    · cases hw
  fits i a h := by
    rcases start_cases h with ⟨-, rfl⟩ | ⟨x, rfl⟩
    · exact .inl rfl
    · trivial
  entered := rfl
  taken := rfl
  away h := by cases h
  winner i a h hw := by
    rcases start_cases h with ⟨-, rfl⟩ | ⟨x, rfl⟩ <;> cases hw
  finished h := by cases h
  interrupted h := by cases h

/-- An access decides the race, for the worker or for a holder, or it leaves the phase as it is, or
the body has ended. -/
theorem touch_cases (i : Nat) {t : Ticket} (F : Access.Fits t a) :
    let x : Touch := ⟨i, a, t.phase⟩
    t.phase = .queued ∧ x.enters = true ∧ x.takesBack = false ∧ x.turnsAway = false ∧
        (t.access a).1.phase = .running ∨
      t.phase = .queued ∧ x.enters = false ∧ x.takesBack = true ∧ x.turnsAway = false ∧
        (t.access a).1.phase = .cancelled ∨
      x.enters = false ∧ x.takesBack = false ∧ (x.turnsAway = true → t.phase = .cancelled) ∧
        ((t.access a).1.phase = t.phase ∨
          t.phase = .running ∧ (t.access a).1.phase = .done) := by
  cases a with
  | claim ending =>
    by_cases hq : t.phase = .queued
    · simp [Touch.enters, Touch.takesBack, Touch.turnsAway, Ticket.access, hq]
    · simp [Touch.enters, Touch.takesBack, Ticket.access, F.resolve_left hq]
  | take aborting =>
    by_cases hq : t.phase = .queued
    · simp [Touch.enters, Touch.takesBack, Touch.turnsAway, Ticket.access, hq]
    · simp [Touch.enters, Touch.takesBack, Touch.turnsAway, Ticket.access, hq]
  | storeDone => exact .inr (.inr ⟨rfl, rfl, nofun, .inr ⟨F, rfl⟩⟩)
  | storeCancelled => exact .inr (.inr ⟨rfl, rfl, nofun, .inl (Eq.symm F)⟩)
  | _ => exact .inr (.inr ⟨rfl, rfl, nofun, .inl rfl⟩)

/-- Those who wait are told by a thread that has decided the race. -/
theorem finished_cases {t : Ticket} (F : Access.Fits t a)
    (h : (t.access a).1.finished = true) :
    t.finished = true ∨ (t.access a).1.phase = .done ∨ (t.access a).1.phase = .cancelled := by
  cases a with
  | tellDone => exact .inr (.inl F)
  | tellCancelled => exact .inr (.inr F)
  | claim | take =>
    simp only [Ticket.access] at h
    split at h <;> exact .inl h
  | _ => exact .inl h

/-- The interrupt is tripped by an abort that has found the job running. -/
theorem interrupted_cases {t : Ticket} (F : Access.Fits t a)
    (h : (t.access a).1.interrupted = true) :
    t.interrupted = true ∨ (t.access a).1.phase = .running ∨ (t.access a).1.phase = .done := by
  cases a with
  | trip => exact .inr F
  | claim | take =>
    simp only [Ticket.access] at h
    split at h <;> exact .inl h
  | _ => exact .inl h

/-- A thread comes to have taken the job back by an access that did. -/
theorem won_cases {t : Ticket} (h : (t.access a).2.won = true) :
    a.won = true ∨ Touch.takesBack ⟨i, a, t.phase⟩ = true := by
  cases a with
  | take aborting =>
    simp only [Ticket.access] at h
    split at h
    · next hq => exact .inr (by simp [Touch.takesBack, hq])
    · cases aborting <;> cases h
  | claim | look =>
    simp only [Ticket.access] at h
    split at h <;> cases h
  | storeCancelled | tellCancelled => exact .inl rfl
  | cancelReturned => exact .inl h
  | _ => cases h

theorem Sound.next (D : r.Sound c) (h : r.threads[i]? = some a) :
    (r.step i).Sound (c ++ [⟨i, a, r.ticket.phase⟩]) := by
  have F := D.fits i a h
  have ticket : (r.step i).ticket = (r.ticket.access a).1 := by rw [step_of_some h]
  have decided := touch_cases i F
  constructor
  case holders =>
    intro j b hj hw
    rcases threads_step h hj with ⟨rfl, rfl⟩ | ⟨-, hj⟩
    · exact D.holders _ a h (Ticket.ofWorker_access ▸ hw)
    · exact D.holders j b hj hw
  case fits =>
    intro j b hj
    rw [ticket]
    rcases threads_step h hj with ⟨rfl, rfl⟩ | ⟨hne, hj⟩
    · exact Ticket.fits_access F
    · refine Ticket.fits_other (D.fits j b hj) F fun ha => Bool.eq_false_iff.mpr fun hb => hne ?_
      exact (D.holders j b hj hb).trans (D.holders i a h ha).symm
  case entered =>
    rw [ticket, List.countP_append, List.countP_singleton, D.entered]
    generalize Touch.mk i a r.ticket.phase = x at decided ⊢
    rcases decided with ⟨hq, he, -, -, hp⟩ | ⟨hq, he, -, -, hp⟩ | ⟨he, -, -, hp | ⟨hr, hp⟩⟩ <;>
      simp [*]
  case taken =>
    rw [ticket, List.countP_append, List.countP_singleton, D.taken]
    generalize Touch.mk i a r.ticket.phase = x at decided ⊢
    rcases decided with ⟨hq, -, ht, -, hp⟩ | ⟨hq, -, ht, -, hp⟩ | ⟨-, ht, -, hp | ⟨hr, hp⟩⟩ <;>
      simp [*]
  case away =>
    rw [ticket, List.any_append, Bool.or_eq_true]
    rintro (ha | ha)
    · have := Ticket.phase_access_of_last F (.inr (D.away ha))
      exact this.trans (D.away ha)
    · simp only [List.any_cons, List.any_nil, Bool.or_false] at ha
      rcases decided with ⟨-, -, -, hn, -⟩ | ⟨-, -, -, hn, -⟩ | ⟨-, -, hc, -⟩
      · cases hn.symm.trans ha
      · cases hn.symm.trans ha
      · exact (Ticket.phase_access_of_last F (.inr (hc ha))).trans (hc ha)
  case winner =>
    intro j b hj hw
    rcases threads_step h hj with ⟨rfl, rfl⟩ | ⟨-, hj⟩
    · rcases won_cases (i := j) hw with hw | ht
      · obtain ⟨x, hx, hw⟩ := D.winner j a h hw
        exact ⟨x, List.mem_append_left _ hx, hw⟩
      · exact ⟨_, List.mem_append_right _ (List.mem_singleton_self _), ht, rfl⟩
    · obtain ⟨x, hx, hw⟩ := D.winner j b hj hw
      exact ⟨x, List.mem_append_left _ hx, hw⟩
  case finished =>
    rw [ticket]
    intro hf
    rcases finished_cases F hf with hf | hp
    · have last := D.finished hf
      rwa [Ticket.phase_access_of_last F last]
    · exact hp
  case interrupted =>
    rw [ticket]
    intro hi
    rcases interrupted_cases F hi with hi | hp
    · rcases decided with ⟨-, -, -, -, hp⟩ | ⟨hq, -, -, -, hp⟩ | ⟨-, -, -, hp | ⟨-, hp⟩⟩
      · exact .inl hp
      · rcases D.interrupted hi with hp | hp <;> cases hq.symm.trans hp
      · exact hp ▸ D.interrupted hi
      · exact .inr hp
    · exact hp

theorem Sound.run (D : r.Sound c) (schedule : List Nat) :
    (r.run schedule).Sound (c ++ r.course schedule) := by
  induction schedule generalizing r c with
  | nil => rwa [course, List.append_nil]
  | cons i schedule ih =>
    rw [run_cons, course, touch, ← List.append_assoc]
    cases h : r.threads[i]? with
    | none =>
      rw [List.append_nil, step_of_none h]
      exact ih D
    | some a => exact ih (D.next h)

/-- What decides a race is not undone. -/
theorem Sound.phase_run (D : r.Sound c) (h : r.ticket.phase = .done ∨ r.ticket.phase = .cancelled)
    (schedule : List Nat) : (r.run schedule).ticket.phase = r.ticket.phase := by
  induction schedule generalizing r c with
  | nil => rfl
  | cons i schedule ih =>
    rw [run_cons]
    cases ha : r.threads[i]? with
    | none =>
      rw [step_of_none ha]
      exact ih D h
    | some a =>
      have same : (r.step i).ticket.phase = r.ticket.phase := by
        rw [step_of_some ha]
        exact Ticket.phase_access_of_last (D.fits i a ha) h
      exact (ih (D.next ha) (same ▸ h)).trans same

/-! ## Who waits is told -/

/-- Those who wait have been told, or the thread will tell them by one of its next accesses. -/
def Tells (i n : Nat) (r : Race) : Prop :=
  r.ticket.finished = true ∨ ∃ a, r.threads[i]? = some a ∧ 0 < a.owed ∧ a.owed ≤ n

theorem Tells.step {n : Nat} (T : r.Tells i n) (j : Nat) :
    (r.step j).Tells i (n - if j = i then 1 else 0) := by
  rcases T with hf | ⟨a, ha, hpos, hle⟩
  · left
    cases hj : r.threads[j]? with
    | none => rwa [step_of_none hj]
    | some b =>
      rw [step_of_some hj]
      exact Ticket.finished_access hf
  · by_cases he : j = i
    · subst he
      have hlt := (List.getElem?_eq_some_iff.mp ha).1
      rw [step_of_some ha, if_pos rfl]
      cases a with
      | tellDone | tellCancelled => exact .inl rfl
      | body | storeDone | storeCancelled =>
        simp only [Access.owed] at hle
        refine .inr ⟨_, List.getElem?_set_self hlt, Nat.succ_pos _, ?_⟩
        simp only [Ticket.access, Access.owed]
        omega
      | _ => simp [Access.owed] at hpos
    · rw [if_neg he]
      cases hj : r.threads[j]? with
      | none =>
        rw [step_of_none hj]
        exact .inr ⟨a, ha, hpos, hle⟩
      | some b =>
        rw [step_of_some hj]
        exact .inr ⟨a, by rw [List.getElem?_set_ne he]; exact ha, hpos, hle⟩

theorem Tells.run {n : Nat} (T : r.Tells i n) (schedule : List Nat) :
    (r.run schedule).Tells i (n - schedule.count i) := by
  induction schedule generalizing r n with
  | nil => exact T
  | cons j schedule ih =>
    have told := ih (T.step j)
    rw [Nat.sub_sub, Nat.add_comm] at told
    simpa only [run_cons, List.count_cons, beq_iff_eq] using told

/-! ## The life of a job -/

/-- The body is entered once or the job is taken back once, at most. -/
theorem Sound.once (D : r.Sound c) : c.countP Touch.enters + c.countP Touch.takesBack ≤ 1 := by
  rw [D.entered, D.taken]
  cases r.ticket.phase <;> decide

theorem Sound.takenBack_iff (D : r.Sound c) :
    c.any Touch.takesBack = true ↔ r.ticket.phase = .cancelled := by
  rw [List.any_eq_true, ← List.countP_pos_iff, D.taken]
  split <;> simp_all

theorem Sound.entered_iff (D : r.Sound c) : c.any Touch.enters = true ↔
    r.ticket.phase = .running ∨ r.ticket.phase = .done := by
  rw [List.any_eq_true, ← List.countP_pos_iff, D.entered]
  split <;> simp_all

/-- Not more than one access takes the job back, so one holder only has done it. -/
theorem Sound.winner_unique (D : r.Sound c) (ha : r.threads[i]? = some a) (wa : a.won = true)
    (hb : r.threads[j]? = some b) (wb : b.won = true) : i = j := by
  obtain ⟨x, hx, tx, rfl⟩ := D.winner i a ha wa
  obtain ⟨y, hy, ty, rfl⟩ := D.winner j b hb wb
  have one : (c.filter Touch.takesBack).length ≤ 1 := by
    rw [← List.countP_eq_length_filter]
    have := D.once
    omega
  obtain ⟨z, hz⟩ : ∃ z, c.filter Touch.takesBack = [z] := by
    have : 0 < (c.filter Touch.takesBack).length :=
      List.length_pos_of_mem (List.mem_filter.mpr ⟨hx, tx⟩)
    exact List.length_eq_one_iff.mp (by omega)
  have found : ∀ {w}, w ∈ c → w.takesBack = true → w = z := fun hw tw => by
    simpa [hz] using List.mem_filter.mpr ⟨hw, tw⟩
  rw [found hx tx, found hy ty]

end

/-- The life of a job, however its body ends, in every order in which its worker and any number of
cancels and aborts make their accesses. The body is entered once at most, and not at all if a
cancel succeeds, be it that of an abort; only one does; and the worker leaves without having
entered the body only if one has. The last phases are not left. Those who wait are told after one
of them has been reached, and they are told for certain, also if the body panics: by whoever has
decided the race, within three accesses of its own. The interrupt is tripped only for a job that a
worker has claimed, and once an abort has returned the job is done, cancelled or interrupted. -/
theorem job_life_cycle (ending : Ending) (aborting : List Bool) (schedule : List Nat) :
    let r := (start ending aborting).run schedule
    let c := (start ending aborting).course schedule
    c.countP Touch.enters + c.countP Touch.takesBack ≤ 1 ∧
    (c.any Touch.turnsAway = true → c.any Touch.takesBack = true) ∧
    (∀ i : Nat, r.threads[i]? = some (.cancelReturned true) →
      (∃ x ∈ c, x.takesBack = true ∧ x.thread = i) ∧
      ∀ j, r.threads[j]? = some (.cancelReturned true) → i = j) ∧
    (r.ticket.phase = .done ∨ r.ticket.phase = .cancelled →
      ∀ more, (r.run more).ticket.phase = r.ticket.phase) ∧
    (r.ticket.finished = true → r.ticket.phase = .done ∨ r.ticket.phase = .cancelled) ∧
    (∀ (i : Nat) (a : Access), r.threads[i]? = some a → 0 < a.owed → ∀ more : List Nat, a.owed ≤ more.count i →
      (r.run more).ticket.finished = true) ∧
    (r.ticket.interrupted = true → c.any Touch.enters = true) ∧
    (∀ i : Nat, r.threads[i]? = some .abortReturned →
      r.ticket.phase = .done ∨ r.ticket.phase = .cancelled ∨ r.ticket.interrupted = true) := by
  intro r c
  have D : r.Sound c := by simpa using (start_sound ending aborting).run schedule
  refine ⟨D.once, fun h => D.takenBack_iff.mpr (D.away h), fun i hi => ?_,
    fun h more => D.phase_run h more, D.finished, fun i a ha hpos more hle => ?_,
    fun h => D.entered_iff.mpr (D.interrupted h), fun i hi => D.fits i _ hi⟩
  · exact ⟨D.winner i _ hi rfl, fun j hj => D.winner_unique hi rfl hj rfl⟩
  · have told : r.Tells i a.owed := .inr ⟨a, ha, hpos, Nat.le_refl _⟩
    refine (told.run more).resolve_right ?_
    rintro ⟨b, -, hb, hn⟩
    omega

/-- A body panics while an abort finds it running; a cancel has come too late. -/
theorem job_life_cycle_panicked :
    let r := (start .panicked [false, true]).run [0, 1, 2, 2, 2, 0]
    r.threads = [.storeDone, .cancelReturned false, .abortReturned] ∧
      r.ticket = ⟨.running, false, true⟩ ∧ (r.run [0, 0]).ticket.finished = true :=
  ⟨by decide, by decide, (job_life_cycle .panicked [false, true] [0, 1, 2, 2, 2, 0]).2.2.2.2.2.1 0
    .storeDone (by decide) (by decide) [0, 0] (by decide)⟩

end Race

end ScriptHost
