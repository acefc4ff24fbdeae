import ScriptHost.Engine.Step

/-!
# Runs of a host

A `System` is a machine with the threads that are at it: callers, each with an
operation, and workers, each with a job. A `Step` lets a caller come with any
operation, lets a worker claim any job that has not started, or lets one of
the threads do its next section; a pool that never takes jobs back by itself
may also begin or cease to refuse to give them back. `Run S h T`: `S` becomes
`T` in any number of steps, `h` being the sections done on the way, the
earliest first.
-/

namespace ScriptHost

/-- The threads that share a machine. -/
structure System where
  machine : Machine
  threads : List Thread

/-- A section that has been done, with the machine as it found it. -/
structure Section where
  machine : Machine
  instr : Instr

/-- What the section notes when its thread has nothing to answer yet, the earliest first. -/
def Section.notes (s : Section) : List Note :=
  let after := (s.instr.exec s.machine .nothing).machine.trace
  (after.take (after.length - s.machine.trace.length)).reverse

theorem Section.notes_eq {s : Section} {l : List Note}
    (h : (s.instr.exec s.machine .nothing).machine.trace = l ++ s.machine.trace) :
    s.notes = l.reverse := by
  simp [notes, h]

namespace System

/-- One step of one thread, and the section done by it. -/
inductive Step : System → List Section → System → Prop where
  | call {m : Machine} {ts : List Thread} (o : Op) : Step ⟨m, ts⟩ [] ⟨m, ts ++ [.ofOp o]⟩
  | claim {m : Machine} {ts : List Thread} {n : Nat} {j : Job} :
      m.job? n = some j → j.phase = .queued →
      Step ⟨m, ts⟩ [] ⟨m.setPhase n .running, ts ++ [.ofJob j.owner j.ticket n]⟩
  | refuse {m : Machine} {ts : List Thread} (b : Bool) : m.abortsRunning = false →
      Step ⟨m, ts⟩ [] ⟨{ m with refusesCancel := b }, ts⟩
  | move {m m' : Machine} {ts : List Thread} {k : Nat} {t t' : Thread} {a : Instr} :
      ts[k]? = some t → t.agenda.head? = some a → t.step? m = some (m', t') →
      Step ⟨m, ts⟩ [⟨m, a⟩] ⟨m', ts.set k t'⟩

inductive Run (S : System) : List Section → System → Prop where
  | refl : Run S [] S
  | snoc {h l : List Section} {T U : System} : Run S h T → T.Step l U → Run S (h ++ l) U

theorem Run.trans {S T U : System} {h l : List Section} (h1 : Run S h T) (h2 : Run T l U) :
    Run S (h ++ l) U := by
  induction h2 with
  | refl => simpa using h1
  | snoc _ hs ih => rw [← List.append_assoc]; exact .snoc ih hs

end System

/-- A machine on which nothing has happened. A pool that takes jobs back when they are aborted
also gives them back when asked. -/
structure Machine.Fresh (m : Machine) : Prop where
  instances : m.instances = []
  registered : m.registered = []
  named : m.named = []
  jobs : m.jobs = []
  pool : m.abortsRunning = true → m.refusesCancel = false

namespace System

/-- A system with all sections that were done since its machine was fresh. -/
def Life (h : List Section) (S : System) : Prop := ∃ m : Machine, m.Fresh ∧ Run ⟨m, []⟩ h S

def Reachable (S : System) : Prop := ∃ h, Life h S

/-- What holds of a fresh machine and survives every step holds throughout a life. -/
theorem Life.induct {P : List Section → System → Prop} (start : ∀ m, m.Fresh → P [] ⟨m, []⟩)
    (next : ∀ h S l T, Life h S → P h S → S.Step l T → P (h ++ l) T) {h : List Section}
    {S : System} (H : Life h S) : P h S := by
  obtain ⟨m, hm, r⟩ := H
  induction r with
  | refl => exact start m hm
  | snoc r hs ih => exact next _ _ _ _ ⟨m, hm, r⟩ ih hs

end System

/-! ## What is still to be done -/

/-- Sections with which a thread begins. -/
def Instr.begins : Instr → Bool
  | .op _ | .takeTurn _ _ _ | .jobDone _ => true
  | _ => false

namespace System

/-- The sections that all threads have still to do. -/
def pending (S : System) : List Instr := S.threads.flatMap (·.agenda)

theorem mem_pending {S : System} {a : Instr} :
    a ∈ S.pending ↔ ∃ t ∈ S.threads, a ∈ t.agenda := by
  simp [pending]

/-- What is pending apart from the section that a thread is at: the rest of its agenda, and the
agendas of the other threads. -/
def elsewhere (rest : List Instr) (others : List Thread) : List Instr :=
  rest ++ others.flatMap (·.agenda)

/-- A thread of `S` does `a`, the first section of its agenda; `rest` is what else it has to do,
`others` are the other threads, and `T` is what comes of it. -/
structure Moves (S : System) (a : Instr) (rest : List Instr) (reply : Reply)
    (others : List Thread) (T : System) : Prop where
  free : a.blocked S.machine = false
  mover : ⟨a :: rest, reply⟩ ∈ S.threads
  still : ∀ t ∈ others, t ∈ S.threads
  machine : T.machine = (a.exec S.machine reply).machine
  threads : ∀ t ∈ T.threads, t.agenda = (a.exec S.machine reply).next ++ rest ∨ t ∈ others
  before : S.pending.Perm (a :: elsewhere rest others)
  after : T.pending.Perm ((a.exec S.machine reply).next ++ elsewhere rest others)

end System

theorem Thread.step?_eq_some {m m' : Machine} {t t' : Thread} (h : t.step? m = some (m', t')) :
    ∃ a rest, t.agenda = a :: rest ∧ a.blocked m = false ∧ m' = (a.exec m t.reply).machine ∧
      t' = ⟨(a.exec m t.reply).next ++ rest, (a.exec m t.reply).reply⟩ := by
  unfold step? at h
  split at h
  · cases h
  · next a rest ha =>
    split at h
    · cases h
    · next hb =>
      cases h
      exact ⟨a, rest, ha, by simpa using hb, rfl, rfl⟩

namespace System

/-- Taking one thread out of a list of threads. -/
theorem flatMap_agenda_split (l r : List Thread) (t : Thread) :
    ((l ++ t :: r).flatMap (·.agenda)).Perm (t.agenda ++ (l ++ r).flatMap (·.agenda)) := by
  simp only [List.flatMap_append, List.flatMap_cons]
  rw [← List.append_assoc, ← List.append_assoc]
  exact List.perm_append_comm.append_right _

theorem Moves.of_move {m m' : Machine} {ts : List Thread} {k : Nat} {t t' : Thread} {a : Instr}
    (hk : ts[k]? = some t) (ha : t.agenda.head? = some a) (hs : t.step? m = some (m', t')) :
    ∃ rest others, Moves ⟨m, ts⟩ a rest t.reply others ⟨m', ts.set k t'⟩ := by
  obtain ⟨b, rest, hb, hfree, rfl, rfl⟩ := Thread.step?_eq_some hs
  obtain rfl : b = a := by simpa [hb] using ha
  obtain ⟨hlt, rfl⟩ := List.getElem?_eq_some_iff.mp hk
  have e : ts = ts.take k ++ ts[k] :: ts.drop (k + 1) := by simp
  refine ⟨rest, ts.take k ++ ts.drop (k + 1), hfree, ?_, ?_, rfl, ?_, ?_, ?_⟩
  · have : ts[k] = ⟨b :: rest, ts[k].reply⟩ := by rw [← hb]
    exact this ▸ List.getElem_mem hlt
  · intro u hu
    rcases List.mem_append.mp hu with hu | hu
    · exact List.mem_of_mem_take hu
    · exact List.mem_of_mem_drop hu
  · intro u hu
    rw [List.set_eq_take_append_cons_drop, if_pos hlt] at hu
    simp only [List.mem_append, List.mem_cons] at hu ⊢
    rcases hu with hu | rfl | hu
    · exact .inr (.inl hu)
    · exact .inl rfl
    · exact .inr (.inr hu)
  · have := flatMap_agenda_split (ts.take k) (ts.drop (k + 1)) ts[k]
    rw [← e, hb] at this
    exact this
  · have := flatMap_agenda_split (ts.take k) (ts.drop (k + 1))
      ⟨(b.exec m ts[k].reply).next ++ rest, (b.exec m ts[k].reply).reply⟩
    unfold pending elsewhere
    rw [← List.append_assoc, List.set_eq_take_append_cons_drop, if_pos hlt]
    exact this

section Moves

variable {S T : System} {a b : Instr} {rest : List Instr} {reply : Reply} {others : List Thread}

theorem Moves.mem_before (M : Moves S a rest reply others T) :
    b ∈ S.pending ↔ b = a ∨ b ∈ elsewhere rest others := by
  rw [M.before.mem_iff, List.mem_cons]

theorem Moves.mem_after (M : Moves S a rest reply others T) :
    b ∈ T.pending ↔ b ∈ (a.exec S.machine reply).next ∨ b ∈ elsewhere rest others := by
  rw [M.after.mem_iff, List.mem_append]

/-- What is pending elsewhere is in an agenda all of which is elsewhere. -/
theorem Moves.agenda_of_mem (M : Moves S a rest reply others T) (h : b ∈ elsewhere rest others) :
    ∃ l, b ∈ l ∧ (∀ x ∈ l, x ∈ elsewhere rest others) ∧
      (l = rest ∨ ∃ t ∈ S.threads, t.agenda = l) := by
  rcases List.mem_append.mp h with h | h
  · exact ⟨rest, h, fun x hx => List.mem_append_left _ hx, .inl rfl⟩
  · obtain ⟨t, ht, hb⟩ := List.mem_flatMap.mp h
    refine ⟨t.agenda, hb, fun x hx => ?_, .inr ⟨t, M.still t ht, rfl⟩⟩
    exact List.mem_append_right _ (List.mem_flatMap.mpr ⟨t, ht, hx⟩)

end Moves

/-! What sections hold, `f a` being what `a` holds. -/

/-- Where nothing is held twice, one section holds it. -/
theorem eq_of_held {κ : Type} {f : Instr → Option κ} {k : κ} {l : List Instr} {a b : Instr}
    (hl : (l.filterMap f).Nodup) (ha : a ∈ l) (hb : b ∈ l) (hka : f a = some k)
    (hkb : f b = some k) : a = b := by
  induction l with
  | nil => cases ha
  | cons x l ih =>
    have split : ∀ {y}, y ∈ l → f y = some k → f x ≠ some k := fun hy hk hx => by
      simp only [List.filterMap_cons, hx, List.nodup_cons] at hl
      exact hl.1 (List.mem_filterMap.mpr ⟨_, hy, hk⟩)
    have tail : (l.filterMap f).Nodup :=
      hl.sublist (List.Sublist.filterMap _ (List.sublist_cons_self x l))
    rcases List.mem_cons.mp ha with rfl | ha'
    · rcases List.mem_cons.mp hb with rfl | hb'
      · rfl
      · exact absurd hka (split hb' hkb)
    · rcases List.mem_cons.mp hb with rfl | hb'
      · exact absurd hkb (split ha' hka)
      · exact ih tail ha' hb'

section Held

variable {S T : System} {a : Instr} {rest : List Instr} {reply : Reply} {others : List Thread}
  {κ : Type} {f : Instr → Option κ} {k : κ}

theorem Moves.held_before (M : Moves S a rest reply others T) :
    k ∈ S.pending.filterMap f ↔ f a = some k ∨ k ∈ (elsewhere rest others).filterMap f := by
  rw [(M.before.filterMap f).mem_iff]
  simp

theorem Moves.held_after (M : Moves S a rest reply others T) :
    k ∈ T.pending.filterMap f ↔ k ∈ (a.exec S.machine reply).next.filterMap f ∨
      k ∈ (elsewhere rest others).filterMap f := by
  rw [(M.after.filterMap f).mem_iff, List.filterMap_append, List.mem_append]

theorem Moves.held_elsewhere (M : Moves S a rest reply others T)
    (h : (S.pending.filterMap f).Nodup) : ((elsewhere rest others).filterMap f).Nodup :=
  ((M.before.filterMap f).nodup_iff.mp h).sublist ((List.sublist_cons_self a _).filterMap f)

/-- Where nothing is held twice, what a section holds is not held elsewhere. -/
theorem Moves.held_once (M : Moves S a rest reply others T) (h : (S.pending.filterMap f).Nodup)
    (ha : f a = some k) : k ∉ (elsewhere rest others).filterMap f := by
  have nodup := (M.before.filterMap f).nodup_iff.mp h
  rw [List.filterMap_cons_some ha, List.nodup_cons] at nodup
  exact nodup.1

/-- Nothing comes to be held twice when a section hands on what it holds, or lets go of it, or has
others hold what nobody does. -/
theorem Moves.held_nodup (M : Moves S a rest reply others T) (h : (S.pending.filterMap f).Nodup)
    (next : (a.exec S.machine reply).next.filterMap f = [] ∨
      (a.exec S.machine reply).next.filterMap f = [a].filterMap f ∨
      ((a.exec S.machine reply).next.filterMap f).Nodup ∧
        ∀ k ∈ (a.exec S.machine reply).next.filterMap f,
          k ∉ (elsewhere rest others).filterMap f) : (T.pending.filterMap f).Nodup := by
  rw [(M.after.filterMap f).nodup_iff, List.filterMap_append]
  rcases next with e | e | ⟨new, hk⟩
  · rw [e]
    exact M.held_elsewhere h
  · rw [e, ← List.filterMap_append]
    exact (M.before.filterMap f).nodup_iff.mp h
  · exact List.nodup_append.mpr ⟨new, M.held_elsewhere h, fun k h k' h' he => hk k h (he ▸ h')⟩

end Held

/-- A step is a caller's coming, a worker's claim, a change of the pool's mind, or a move. -/
theorem Step.cases_on {P : System → List Section → System → Prop} {S T : System}
    {l : List Section} (s : S.Step l T)
    (call : ∀ m ts o, P ⟨m, ts⟩ [] ⟨m, ts ++ [.ofOp o]⟩)
    (claim : ∀ m ts n j, m.job? n = some j → j.phase = .queued →
      P ⟨m, ts⟩ [] ⟨m.setPhase n .running, ts ++ [.ofJob j.owner j.ticket n]⟩)
    (refuse : ∀ m ts b, m.abortsRunning = false →
      P ⟨m, ts⟩ [] ⟨{ m with refusesCancel := b }, ts⟩)
    (move : ∀ S T a rest reply others, Moves S a rest reply others T →
      P S [⟨S.machine, a⟩] T) : P S l T := by
  cases s with
  | call o => exact call _ _ o
  | claim h1 h2 => exact claim _ _ _ _ h1 h2
  | refuse b h => exact refuse _ _ b h
  | move h1 h2 h3 =>
    obtain ⟨rest, others, M⟩ := Moves.of_move h1 h2 h3
    exact move _ _ _ _ _ _ M

/-- Induction on a life, one case for each kind of step. -/
theorem Life.induct_steps {P : List Section → System → Prop}
    (start : ∀ m, m.Fresh → P [] ⟨m, []⟩)
    (call : ∀ h m ts o, P h ⟨m, ts⟩ → P h ⟨m, ts ++ [.ofOp o]⟩)
    (claim : ∀ h m ts n j, Life h ⟨m, ts⟩ → m.job? n = some j → j.phase = .queued → P h ⟨m, ts⟩ →
      P h ⟨m.setPhase n .running, ts ++ [.ofJob j.owner j.ticket n]⟩)
    (refuse : ∀ h m ts b, P h ⟨m, ts⟩ → P h ⟨{ m with refusesCancel := b }, ts⟩)
    (move : ∀ h S T a rest reply others, Life h S → Moves S a rest reply others T → P h S →
      P (h ++ [⟨S.machine, a⟩]) T)
    {h : List Section} {S : System} (H : Life h S) : P h S := by
  refine H.induct start fun h S l T H hP s => ?_
  revert H hP
  refine s.cases_on (P := fun S l T => Life h S → P h S → P (h ++ l) T) ?_ ?_ ?_ ?_
  · intro m ts o _ hP
    simpa using call h m ts o hP
  · intro m ts n j hj hq H hP
    simpa using claim h m ts n j H hj hq hP
  · intro m ts b _ _ hP
    simpa using refuse h m ts b hP
  · intro S T a rest reply others M H hP
    exact move h S T a rest reply others H M hP

theorem pending_append (m n : Machine) (ts : List Thread) (t : Thread) :
    pending ⟨m, ts ++ [t]⟩ = pending ⟨n, ts⟩ ++ t.agenda := by
  simp [pending]

/-! ## Inside a run -/

/-- `T` is `S` with threads that have not moved yet; the pool may have changed its mind. -/
structure Joins (S T : System) : Prop where
  instances : T.machine.instances = S.machine.instances
  store : T.machine.store = S.machine.store
  pending : ∃ l, T.pending = S.pending ++ l ∧ ∀ b ∈ l, b.begins = true

theorem Joins.get? {S T : System} (J : S.Joins T) (id : Nat) :
    T.machine.get? id = S.machine.get? id := by
  rw [Machine.get?, Machine.get?, J.instances]

theorem Joins.keeps {S T : System} (J : S.Joins T) {b : Instr} (hb : b ∈ S.pending) :
    b ∈ T.pending := by
  obtain ⟨l, e, -⟩ := J.pending
  exact e ▸ List.mem_append_left l hb

/-- What a thread does not begin with was pending before. -/
theorem Joins.mem_pending {S T : System} (J : S.Joins T) {b : Instr} (later : b.begins = false) :
    b ∈ T.pending ↔ b ∈ S.pending := by
  obtain ⟨l, e, begins⟩ := J.pending
  rw [e, List.mem_append]
  exact or_iff_left fun hb => Bool.false_ne_true (later.symm.trans (begins b hb))

theorem Joins.filterMap_pending {S T : System} {α : Type} {f : Instr → Option α} (J : S.Joins T)
    (none : ∀ b, b.begins = true → f b = none) :
    T.pending.filterMap f = S.pending.filterMap f := by
  obtain ⟨l, e, begins⟩ := J.pending
  rw [e, List.filterMap_append,
    List.filterMap_eq_nil_iff.mpr fun b hb => none b (begins b hb), List.append_nil]

/-- A step does one section of one thread, or none. -/
theorem Step.joins_or_moves {S T : System} {l : List Section} (s : S.Step l T) :
    l = [] ∧ S.Joins T ∨
      ∃ a rest reply others, l = [⟨S.machine, a⟩] ∧ Moves S a rest reply others T := by
  refine s.cases_on (P := fun S l T => l = [] ∧ S.Joins T ∨
    ∃ a rest reply others, l = [⟨S.machine, a⟩] ∧ Moves S a rest reply others T) ?_ ?_ ?_ ?_
  · intro m ts o
    exact .inl ⟨rfl, rfl, rfl, [.op o], pending_append m m ts _, by simp [Instr.begins]⟩
  · intro m ts n j _ _
    exact .inl ⟨rfl, rfl, rfl, _, pending_append _ m ts _, by simp [Thread.ofJob, Instr.begins]⟩
  · intro m ts b _
    exact .inl ⟨rfl, rfl, rfl, [], (List.append_nil _).symm, by simp⟩
  · exact fun S T a rest reply others M => .inr ⟨a, rest, reply, others, rfl, M⟩

/-- Induction on a life, the steps that are no sections taken together. -/
theorem Life.induct_moves {P : List Section → System → Prop}
    (start : ∀ m, m.Fresh → P [] ⟨m, []⟩)
    (joins : ∀ h S T, Joins S T → P h S → P h T)
    (moves : ∀ h S T a rest reply others, Life h S → Moves S a rest reply others T → P h S →
      P (h ++ [⟨S.machine, a⟩]) T)
    {h : List Section} {S : System} (H : Life h S) : P h S := by
  refine H.induct start fun h S l T H hP s => ?_
  rcases s.joins_or_moves with ⟨rfl, J⟩ | ⟨a, rest, reply, others, rfl, M⟩
  · rw [List.append_nil]
    exact joins h S T J hP
  · exact moves h S T a rest reply others H M hP

/-- Where a section of a run was done. -/
theorem Run.split {S T : System} {h l : List Section} {s : Section} (r : Run S (h ++ s :: l) T) :
    ∃ U V rest reply others, Run S h U ∧ s.machine = U.machine ∧
      Moves U s.instr rest reply others V ∧ Run S (h ++ [s]) V ∧ Run V l T := by
  generalize e : h ++ s :: l = g at r
  induction r generalizing l with
  | refl => simp at e
  | snoc r st ih =>
    rcases st.joins_or_moves with ⟨rfl, -⟩ | ⟨a, rest, reply, others, rfl, M⟩
    · rw [List.append_nil] at e
      obtain ⟨U, V, rest, reply, others, rU, hm, M, r', rV⟩ := ih e
      exact ⟨U, V, rest, reply, others, rU, hm, M, r', List.append_nil l ▸ .snoc rV st⟩
    · rcases List.eq_nil_or_concat l with rfl | ⟨l, x, rfl⟩
      · obtain ⟨rfl, hs⟩ := List.append_inj' e rfl
        cases hs
        exact ⟨_, _, rest, reply, others, r, rfl, M, .snoc r st, .refl⟩
      · rw [List.concat_eq_append, ← List.cons_append, ← List.append_assoc] at e
        obtain ⟨e, hx⟩ := List.append_inj' e rfl
        obtain ⟨U, V, rest, reply, others, rU, hm, M, r', rV⟩ := ih e
        rw [List.concat_eq_append, hx]
        exact ⟨U, V, rest, reply, others, rU, hm, M, r', .snoc rV st⟩

theorem Life.split {S : System} {h l : List Section} {s : Section} (H : Life (h ++ s :: l) S) :
    ∃ U V rest reply others, Life h U ∧ s.machine = U.machine ∧
      Moves U s.instr rest reply others V ∧ Run V l S := by
  obtain ⟨m, hm, r⟩ := H
  obtain ⟨U, V, rest, reply, others, rU, hs, M, -, rV⟩ := r.split
  exact ⟨U, V, rest, reply, others, ⟨m, hm, rU⟩, hs, M, rV⟩

theorem Life.run {S T : System} {h l : List Section} (H : Life h S) (r : Run S l T) :
    Life (h ++ l) T := by
  obtain ⟨m, hm, r0⟩ := H
  exact ⟨m, hm, r0.trans r⟩

/-- A step leaves a thread as it is, or does the first section of its agenda. -/
theorem Step.thread {S T : System} {l : List Section} {k : Nat} {t : Thread} (s : S.Step l T)
    (hk : S.threads[k]? = some t) : T.threads[k]? = some t ∨ ∃ a rest, t.agenda = a :: rest ∧
      l = [⟨S.machine, a⟩] ∧ T.machine = (a.exec S.machine t.reply).machine ∧
      T.threads[k]? = some
        ⟨(a.exec S.machine t.reply).next ++ rest, (a.exec S.machine t.reply).reply⟩ := by
  have hlt := (List.getElem?_eq_some_iff.mp hk).1
  have appended : ∀ u, (S.threads ++ [u])[k]? = some t := fun u => by
    rw [List.getElem?_append_left hlt, hk]
  cases s with
  | call o => exact .inl (appended _)
  | claim => exact .inl (appended _)
  | refuse => exact .inl hk
  | @move m m' ts j t₀ t' a hj ha hs =>
    by_cases he : j = k
    · subst he
      obtain rfl : t₀ = t := Option.some.inj (hj.symm.trans hk)
      obtain ⟨b, rest, hb, -, rfl, rfl⟩ := Thread.step?_eq_some hs
      obtain rfl : b = a := by simpa [hb] using ha
      exact .inr ⟨b, rest, hb, rfl, rfl, by simp [hlt]⟩
    · exact .inl (by simpa [he] using hk)

end System

/-! ## One thread at a time -/

/-- The sections that a thread does when it goes on alone, at most `fuel`. -/
def Thread.sections : Nat → Machine → Thread → List Section
  | 0, _, _ => []
  | fuel + 1, m, t =>
    match t.agenda.head?, t.step? m with
    | some a, some (m', t') => ⟨m, a⟩ :: sections fuel m' t'
    | _, _ => []

namespace System

theorem Run.idle {m : Machine} {ts : List Thread} {k : Nat} {t : Thread} (hk : ts[k]? = some t) :
    Run ⟨m, ts⟩ [] ⟨m, ts.set k t⟩ := by
  obtain ⟨hlt, rfl⟩ := List.getElem?_eq_some_iff.mp hk
  rw [List.set_getElem_self]
  exact .refl

theorem Run.alone {k : Nat} (fuel : Nat) {m : Machine} {ts : List Thread} {t : Thread}
    (hk : ts[k]? = some t) :
    Run ⟨m, ts⟩ (t.sections fuel m) ⟨(t.run fuel m).1, ts.set k (t.run fuel m).2⟩ := by
  induction fuel generalizing m ts t with
  | zero => exact Run.idle hk
  | succ fuel ih =>
    unfold Thread.sections Thread.run
    cases hs : t.step? m with
    | none => cases t.agenda.head? <;> exact Run.idle hk
    | some p =>
      obtain ⟨m', t'⟩ := p
      obtain ⟨a, rest, ha, -⟩ := Thread.step?_eq_some hs
      have head : t.agenda.head? = some a := by rw [ha]; rfl
      have one : Run ⟨m, ts⟩ [⟨m, a⟩] ⟨m', ts.set k t'⟩ := .snoc .refl (.move hk head hs)
      have hlt := (List.getElem?_eq_some_iff.mp hk).1
      have hk' : (ts.set k t')[k]? = some t' := by simp [hlt]
      have next := ih (m := m') hk'
      rw [List.set_set] at next
      simp only [head]
      exact one.trans next

/-- A caller comes and goes on alone, at most `fuel` sections. -/
def visit (fuel : Nat) (S : System) (o : Op) : System :=
  ⟨((Thread.ofOp o).run fuel S.machine).1,
    S.threads ++ [((Thread.ofOp o).run fuel S.machine).2]⟩

theorem Run.visit (fuel : Nat) (S : System) (o : Op) :
    Run S ((Thread.ofOp o).sections fuel S.machine) (S.visit fuel o) := by
  have come : Run S [] ⟨S.machine, S.threads ++ [.ofOp o]⟩ := .snoc .refl (.call o)
  have last : (S.threads ++ [Thread.ofOp o])[S.threads.length]? = some (.ofOp o) := by simp
  have := come.trans (Run.alone fuel last)
  simpa [System.visit] using this

/-- Callers that come one after the other, and all that is done by them. -/
def visits (fuel : Nat) : System → List Op → List Section × System
  | S, [] => ([], S)
  | S, o :: os =>
    let (h, T) := visits fuel (S.visit fuel o) os
    ((Thread.ofOp o).sections fuel S.machine ++ h, T)

theorem Run.visits (fuel : Nat) (S : System) (os : List Op) :
    Run S (S.visits fuel os).1 (S.visits fuel os).2 := by
  induction os generalizing S with
  | nil => exact .refl
  | cons o os ih => exact (Run.visit fuel S o).trans (ih _)

end System

/-- What may happen next: a caller comes and goes on alone, a worker claims a job, or a thread that
is there goes on alone. -/
inductive Cue where
  | call (o : Op)
  | claim (n : Nat)
  | go (k : Nat)

namespace System

/-- What comes of a cue, each thread going on for at most `fuel` sections. -/
def follow (fuel : Nat) (S : System) : Cue → List Section × System
  | .call o => ((Thread.ofOp o).sections fuel S.machine, S.visit fuel o)
  | .claim n =>
    match S.machine.job? n with
    | some j =>
      if j.phase = .queued then
        ([], ⟨S.machine.setPhase n .running, S.threads ++ [.ofJob j.owner j.ticket n]⟩)
      else ([], S)
    | none => ([], S)
  | .go k =>
    match S.threads[k]? with
    | some t =>
      (t.sections fuel S.machine,
        ⟨(t.run fuel S.machine).1, S.threads.set k (t.run fuel S.machine).2⟩)
    | none => ([], S)

theorem Run.follow (fuel : Nat) (S : System) (c : Cue) :
    Run S (S.follow fuel c).1 (S.follow fuel c).2 := by
  cases c with
  | call o => exact Run.visit fuel S o
  | claim n =>
    unfold System.follow
    simp only
    split
    · next j hj =>
      split
      · next hq => exact .snoc .refl (.claim hj hq)
      · exact .refl
    · exact .refl
  | go k =>
    unfold System.follow
    simp only
    split
    · next t ht => exact Run.alone fuel ht
    · exact .refl

/-- Cues one after the other, and all that is done on them. -/
def play (fuel : Nat) : System → List Cue → List Section × System
  | S, [] => ([], S)
  | S, c :: cs =>
    let (h, T) := S.follow fuel c
    let (h', U) := play fuel T cs
    (h ++ h', U)

theorem Run.play (fuel : Nat) (S : System) (cs : List Cue) :
    Run S (S.play fuel cs).1 (S.play fuel cs).2 := by
  induction cs generalizing S with
  | nil => exact .refl
  | cons c cs ih => exact (Run.follow fuel S c).trans (ih _)

end System

/-! ## A small host -/

/-- A machine that knows one entity, and whose pool, if asked to, gives no job back. -/
def Machine.bare (refuses : Bool) : Machine :=
  { (default : Machine) with
    limits := ⟨64, 65536, 1024⟩, entities := [(0, default)], refusesCancel := refuses }

theorem Machine.bare_fresh (refuses : Bool) : (bare refuses).Fresh :=
  ⟨rfl, rfl, rfl, rfl, fun h => by cases h⟩

/-- Load a script through the engine. -/
def Op.loadNew (name : String) (item : Nat) (program : Program) : Op :=
  .load name ⟨{ (default : Identity) with item := .ofNat item }, 0, false, .newRez⟩ program none

/-- A program that has actions for some events, whatever its state. -/
def Program.answering (handlers : List (String × List Action)) : Program :=
  .mk .empty id (fun state => UInt64.ofNat state.utf8ByteSize) fun _ event =>
    (handlers.lookup event).map fun actions => (event, fun _ => actions)

/-- Load a script that does nothing, through the engine. -/
def Op.loadIdle (name : String) (item : Nat) : Op :=
  .load name ⟨{ (default : Identity) with item := .ofNat item }, 0, false, .newRez⟩ .idle none

namespace System

theorem Life.visits (refuses : Bool) (fuel : Nat) (os : List Op) :
    Life ((System.visits fuel ⟨.bare refuses, []⟩ os).1)
      ((System.visits fuel ⟨.bare refuses, []⟩ os).2) :=
  ⟨.bare refuses, Machine.bare_fresh refuses, Run.visits fuel _ os⟩

theorem Life.play (refuses : Bool) (fuel : Nat) (cs : List Cue) :
    Life ((System.play fuel ⟨.bare refuses, []⟩ cs).1)
      ((System.play fuel ⟨.bare refuses, []⟩ cs).2) :=
  ⟨.bare refuses, Machine.bare_fresh refuses, Run.play fuel _ cs⟩

end System

end ScriptHost
