import Mathlib.Data.List.Nodup
import ScriptHost.Proofs.Engine.Attending

/-!
# A queue worked off

Workers that carry out the jobs of an instance whose handlers ask for nothing
keep to its `Work` (`System.Holds`), a step at a time. So while nobody else acts
on the instance they come to an end, and the instance is idle then and has
answered what was queued, in order (`System.worked_off`).
-/

namespace ScriptHost

namespace System

/-- The work on the instance has come so far: there is at most one thread at a turn that has taken
its event, and that goes on by itself; whoever else works for the instance has not begun. -/
structure Holds (S : System) (id : Nat) (w : Work) : Prop where
  reachable : Reachable S
  presents : S.machine.Presents id w.aspect
  slot : S.machine.core.slots[id]? = some w.slot
  running : w.slot.running = true
  quiet : w.goal.program.Quiet
  unheld : w.goal.holder = none
  others : ∀ k t, S.threads[k]? = some t → (∀ l, w.turn ≠ some (k, l)) → t.Fresh id
  between : w.turn = none → w.aspect = w.goal ∧ w.owed = [] ∧
    (w.slot.queue.events = [] → w.slot.current = none)
  amid : ∀ k l, w.turn = some (k, l) → ∃ ticket rest r,
    S.threads[k]? = some ⟨l ++ .finishTurn id ticket :: rest, r⟩ ∧ w.slot.owns ticket = true ∧
      rest.any (·.ofTurn id) = false ∧ w.aspect.Leads id l w.owed w.goal

/-- What comes of the section `a` of the thread `k`, which has `rest` to do besides. -/
def did (m : Machine) (ts : List Thread) (k : Nat) (a : Instr) (rest : List Instr) (r : Reply) :
    System :=
  ⟨(a.exec m r).machine, ts.set k ⟨(a.exec m r).next ++ rest, (a.exec m r).reply⟩⟩

section Did

variable {m : Machine} {ts : List Thread} {k k' : Nat} {a : Instr} {rest : List Instr} {r : Reply}

theorem did_self (h : k < ts.length) : (did m ts k a rest r).threads[k]? =
    some ⟨(a.exec m r).next ++ rest, (a.exec m r).reply⟩ := List.getElem?_set_self h

theorem did_other (h : k' ≠ k) : (did m ts k a rest r).threads[k']? = ts[k']? :=
  List.getElem?_set_ne (Ne.symm h)

end Did

/-- A bound on what is to be done by workers that have not begun. -/
def toBegin (S : System) (id : Nat) : Nat :=
  2 * S.machine.core.waiting id + S.pending.countP (·.takes id)

variable {S T : System} {id k : Nat} {b : Bool} {l : List Section}

/-- No two threads take or finish one turn. -/
theorem Turning.apart {t t' : Thread} {k' : Nat} {a a' : Instr} {x : Nat × Nat} (U : S.Turning)
    (hk : S.threads[k]? = some t) (hk' : S.threads[k']? = some t') (hne : k ≠ k')
    (ha : a ∈ t.agenda) (ha' : a' ∈ t'.agenda) (hx : a.turn? = some x) : a'.turn? ≠ some x := by
  intro hx'
  have once := U.once
  rw [pending, List.filterMap_flatMap, List.nodup_flatMap, List.pairwise_iff_getElem] at once
  have mem : ∀ {b : Instr} {t : Thread}, b ∈ t.agenda → b.turn? = some x →
      x ∈ t.agenda.filterMap Instr.turn? := fun hb hx => List.mem_filterMap.mpr ⟨_, hb, hx⟩
  obtain ⟨hlt, rfl⟩ := List.getElem?_eq_some_iff.mp hk
  obtain ⟨hlt', rfl⟩ := List.getElem?_eq_some_iff.mp hk'
  rcases Nat.lt_or_gt_of_ne hne with h | h
  · exact once.2 _ _ hlt hlt' h (mem ha hx) (mem ha' hx')
  · exact once.2 _ _ hlt' hlt h (mem ha' hx') (mem ha hx)

namespace Holds

variable {w : Work}

theorem turning (H : S.Holds id w) : S.Turning := by
  obtain ⟨h, L⟩ := H.reachable
  exact L.turning

theorem sound (H : S.Holds id w) : w.Sound id := fun k l ht => by
  obtain ⟨-, -, -, -, -, -, lead⟩ := H.amid k l ht
  exact lead

theorem reachable_step (H : S.Holds id w) (A : Attends id b S l T) : Reachable T := by
  obtain ⟨h, m, fresh, run⟩ := H.reachable
  exact ⟨_, m, fresh, .snoc run A.step⟩

/-- Nothing comes of a step that leaves the instance and the thread at its turn. -/
theorem still (H : S.Holds id w) (R : Reachable T)
    (same : T.machine.get? id = S.machine.get? id) (unhooked : T.machine.hooks = ([], [], []))
    (threads : ∀ (k : Nat) (t : Thread), T.threads[k]? = some t →
      S.threads[k]? = some t ∨ t.Fresh id)
    (turn : ∀ k l, w.turn = some (k, l) → T.threads[k]? = S.threads[k]?) : T.Holds id w where
  reachable := R
  presents := ⟨unhooked, same ▸ H.presents.here⟩
  slot := by
    obtain ⟨i, hi, hs⟩ := Machine.exists_get? H.slot
    rw [← hs]
    exact Machine.slot_of_get? (same.trans hi)
  running := H.running
  quiet := H.quiet
  unheld := H.unheld
  others k t hk ht := (threads k t hk).elim (fun h => H.others k t h ht) fun h => h
  between := H.between
  amid k l ht := by
    rw [turn k l ht]
    exact H.amid k l ht

section Moves

variable {m : Machine} {ts : List Thread} {a : Instr} {rest : List Instr} {r : Reply}
  {f e g : Aspect} {s : Slot} {owed u : List Sight} {ticket n : Nat}

/-- Whoever else works for the instance has not begun. -/
theorem others_turn {l : List Instr} (H : Holds ⟨m, ts⟩ id ⟨f, s, some (k, l), owed, g⟩) (k' : Nat)
    (t : Thread) (hk' : ts[k']? = some t) (hne : k' ≠ k) : t.Fresh id :=
  H.others k' t hk' fun _ h => hne (Prod.mk.inj (Option.some.inj h)).1.symm

/-- The turn is finished. -/
theorem finishes (H : Holds ⟨m, ts⟩ id ⟨f, s, some (k, []), [], f⟩)
    (hk : ts[k]? = some ⟨.finishTurn id ticket :: rest, r⟩) (ho : s.owns ticket = true)
    (clear : rest.any (·.ofTurn id) = false)
    (R : Reachable (did m ts k (.finishTurn id ticket) rest r)) (M M' : Nat) :
    ∃ w', (did m ts k (.finishTurn id ticket) rest r).Holds id w' ∧
      Work.Passes id [⟨m, .finishTurn id ticket⟩] ⟨f, s, some (k, []), [], f⟩ w' ∧
      Work.Less id (w', M') (⟨f, s, some (k, []), [], f⟩, M) := by
  obtain ⟨next, core, P⟩ := H.presents.finishes H.slot ho r
  obtain ⟨s', slot, queue, running, current⟩ := Core.slots_handOn H.slot ho
  let f' : Aspect := { f with detected := [] }
  have lt : k < ts.length := (List.getElem?_eq_some_iff.mp hk).1
  refine ⟨⟨f', s', none, [], f'⟩, ⟨R, P, core ▸ slot, running.trans H.running, H.quiet, H.unheld,
    fun k' t hk' _ => ?_, fun _ => ⟨rfl, rfl, fun hq => current ?_⟩, nofun⟩, ⟨?_, ?_, ?_⟩,
    .finish nofun rfl (by rw [queue])⟩
  · by_cases hne : k' = k
    · subst hne
      rw [did_self lt, next] at hk'
      cases hk'
      exact .inl clear
    · exact H.others_turn k' t ((did_other hne).symm.trans hk') hne
  · have hq : s.queue.events = [] := queue ▸ hq
    simp [Slot.hasWork, Queue.isEmpty, hq]
  · simp [Section.taken, queue]
  · simp [Section.sights, Work.left, queue, f']
  · simp [Work.final, queue, f']

/-- A section of the turn is done. -/
theorem goes_on {l : List Instr} (H : Holds ⟨m, ts⟩ id ⟨f, s, some (k, a :: l), owed ++ u, g⟩)
    (hk : ts[k]? = some ⟨a :: l ++ .finishTurn id ticket :: rest, r⟩) (ho : s.owns ticket = true)
    (clear : rest.any (·.ofTurn id) = false) (D : f.Does id a owed e)
    (go : ∀ m r, m.Presents id f → e.Leads id ((a.exec m r).next ++ l) u g)
    (R : Reachable (did m ts k a (l ++ .finishTurn id ticket :: rest) r)) (M M' : Nat) :
    ∃ w', (did m ts k a (l ++ .finishTurn id ticket :: rest) r).Holds id w' ∧
      Work.Passes id [⟨m, a⟩] ⟨f, s, some (k, a :: l), owed ++ u, g⟩ w' ∧
      Work.Less id (w', M') (⟨f, s, some (k, a :: l), owed ++ u, g⟩, M) := by
  have P : m.Presents id f := H.presents
  have lt : k < ts.length := (List.getElem?_eq_some_iff.mp hk).1
  refine ⟨⟨e, s, some (k, (a.exec m r).next ++ l), u, g⟩, ⟨R, D.after m r P,
    (congrArg (·.slots[id]?) (D.core m r P)).trans H.slot, H.running, H.quiet, H.unheld,
    fun k' t hk' h => ?_, nofun, fun k' l' h => ?_⟩, ?_, .pass rfl rfl P (D.after m r P) rfl⟩
  · have hne : k' ≠ k := by
      rintro rfl
      exact h _ rfl
    exact H.others_turn k' t ((did_other hne).symm.trans hk') hne
  · cases h
    refine ⟨ticket, rest, (a.exec m r).reply, ?_, ho, clear, go m r P⟩
    rw [did_self lt, List.append_assoc]
  · refine ⟨?_, ?_, rfl⟩
    · simp [Section.taken_eq_nil D.handles]
    · simp [D.sights m P, Work.left]

/-- The outstanding turn takes an event. -/
theorem takes {f : Aspect} (H : Holds ⟨m, ts⟩ id ⟨f, s, none, [], f⟩)
    (hk : ts[k]? = some ⟨.takeTurn id ticket n :: rest, r⟩) (ho : s.owns ticket = true)
    (clear : rest.any (·.ofTurn id) = false)
    (R : Reachable (did m ts k (.takeTurn id ticket n) rest r)) (M M' : Nat) :
    ∃ w', (did m ts k (.takeTurn id ticket n) rest r).Holds id w' ∧
      Work.Passes id [⟨m, .takeTurn id ticket n⟩] ⟨f, s, none, [], f⟩ w' ∧
      Work.Less id (w', M') (⟨f, s, none, [], f⟩, M) := by
  obtain ⟨-, -, empty⟩ := H.between rfl
  obtain ⟨turn, hc, -⟩ := Slot.owns_iff.mp ho
  obtain ⟨e, q, hp, hq⟩ : ∃ e q, s.queue.pop? = some (e, q) ∧ s.queue.events = e :: q.events := by
    cases he : s.queue.events with
    | nil => cases (empty he).symm.trans hc
    | cons e l =>
      exact ⟨e, { s.queue with events := l, timerPending := _ }, by rw [Queue.pop?, he], rfl⟩
  obtain ⟨l, next, core, P, lead⟩ := H.presents.takes (n := n) H.quiet H.unheld H.slot ho hp r
  have lt : k < ts.length := (List.getElem?_eq_some_iff.mp hk).1
  let w' : Work := ⟨{ f with detected := e.detected }, { s with queue := q }, some (k, l),
    e.answer f.state, { f with state := e.switch f.state, detected := e.detected }⟩
  have slot : (did m ts k (.takeTurn id ticket n) rest r).machine.core.slots[id]? = some w'.slot :=
    (congrArg (·.slots[id]?) core).trans ((Core.slots_revise H.slot).trans (if_pos rfl))
  have amid : (did m ts k (.takeTurn id ticket n) rest r).threads[k]? =
      some ⟨l ++ .finishTurn id ticket :: rest, ((Instr.takeTurn id ticket n).exec m r).reply⟩ := by
    rw [did_self lt, show _ = l ++ [_] from next, List.append_assoc]
    rfl
  refine ⟨w', ⟨R, P, slot, H.running, H.quiet, H.unheld, fun k' t hk' h => ?_, by rintro ⟨⟩,
    fun k' l' h => ?_⟩, ⟨?_, ?_, ?_⟩, .take (fun k' l' h => ?_) ?_⟩
  · have hne : k' ≠ k := by
      rintro rfl
      exact h _ rfl
    exact H.others k' t ((did_other hne).symm.trans hk') (by rintro l ⟨⟩)
  · cases h
    exact ⟨ticket, rest, _, amid, ho, clear, lead⟩
  · obtain ⟨i, hi, -, hs⟩ := H.presents.here_slot H.slot
    have hi : m.get? id = some i := hi
    simp [Section.taken, hi, Instance.owns, hs, ho, hq, w']
  · simp [Section.sights, Work.left, hq, w', answers]
  · simp [Work.final, hq, w', switches]
  · cases h
    exact lead
  · simp [hq, w']

end Moves

end Holds

/-! ## What one step comes to -/

namespace Holds

variable {w : Work} {m : Machine} {ts : List Thread} {a : Instr} {rest : List Instr} {r : Reply}
  {ticket n : Nat}

/-- What is done beside the instance takes none of its events, and nothing is seen of it. -/
theorem unseen (H : Holds ⟨m, ts⟩ id w) (hk : ts[k]? = some ⟨a :: rest, r⟩)
    (idle : (⟨a :: rest, r⟩ : Thread).worksFor id = false) (unposted : ∀ e, a ≠ .post id e) :
    Section.taken id ⟨m, a⟩ = [] ∧ Section.sights id ⟨m, a⟩ = [] := by
  rw [Thread.worksFor, List.any_cons, Bool.or_eq_false_iff] at idle
  constructor
  · cases a with
    | takeTurn k => exact Section.on_other (by simpa [Instr.ofTurn] using idle.1)
    | _ => rfl
  · cases a with
    | post k e => exact Section.on_other fun h => unposted e (h ▸ rfl)
    | enter v =>
      refine (Section.sights_enter v).trans (Section.on_other fun h => ?_)
      have finish := (H.turning.agendas _ (List.mem_of_getElem? hk)).1 v rfl
      have := List.any_eq_false.mp idle.2 _ finish
      simp [Instr.ofTurn, h] at this
    | _ => rfl

theorem countP_did (id : Nat) (hk : ts[k]? = some ⟨a :: rest, r⟩) (free : a.blocked m = false) :
    (did m ts k a rest r).pending.countP (·.takes id) + (if a.takes id then 1 else 0) =
      (pending ⟨m, ts⟩).countP (·.takes id) + (a.exec m r).next.countP (·.takes id) := by
  have step : Thread.step? m ⟨a :: rest, r⟩ = some ((a.exec m r).machine,
      ⟨(a.exec m r).next ++ rest, (a.exec m r).reply⟩) := by
    simp [Thread.step?, free]
  obtain ⟨rest', others, M⟩ := Moves.of_move hk rfl step
  have before := M.before.countP_eq (·.takes id)
  have after := M.after.countP_eq (·.takes id)
  rw [List.countP_cons] at before
  rw [List.countP_append] at after
  change (did m ts k a rest r).pending.countP _ = _ at after
  simp only at before after
  omega

/-- A section of another thread that leaves the instance, and after which the thread has not begun
with a turn of it. -/
theorem moved (H : Holds ⟨m, ts⟩ id w) (other : ∀ l, w.turn ≠ some (k, l))
    (same : (a.exec m r).machine.get? id = m.get? id)
    (unhooked : (a.exec m r).machine.hooks = ([], [], []))
    (fresh : (⟨(a.exec m r).next ++ rest, (a.exec m r).reply⟩ : Thread).Fresh id)
    (R : Reachable (did m ts k a rest r)) : (did m ts k a rest r).Holds id w := by
  refine H.still R same unhooked (fun k' t hk' => ?_) fun k' l ht => ?_
  · by_cases hne : k' = k
    · subst hne
      have lt : k' < ts.length := by
        simpa [did] using (List.getElem?_eq_some_iff.mp hk').1
      rw [did_self lt] at hk'
      cases hk'
      exact .inr fresh
    · exact .inl ((did_other hne).symm.trans hk')
  · exact did_other fun h => other l (h ▸ ht)

/-- A section that is done beside the instance leaves it where it was, unless one of its jobs is
begun by it. -/
theorem beside (H : Holds ⟨m, ts⟩ id w) (hk : ts[k]? = some ⟨a :: rest, r⟩)
    (other : ∀ l, w.turn ≠ some (k, l)) (free : a.blocked m = false)
    (idle : (⟨a :: rest, r⟩ : Thread).worksFor id = false)
    (beside : (∃ turns ran, a = .run turns ran) ∨ Aside id ⟨m, a⟩ (a.exec m r).machine)
    (R : Reachable (did m ts k a rest r)) :
    (did m ts k a rest r).Holds id w ∧ Work.Passes id [⟨m, a⟩] w w ∧
      ((a.exec m r).machine.core.waiting id = m.core.waiting id ∧
          (did m ts k a rest r).toBegin id = toBegin ⟨m, ts⟩ id ∨
        (a.exec m r).machine.core.waiting id ≠ m.core.waiting id ∧
          (did m ts k a rest r).toBegin id < toBegin ⟨m, ts⟩ id) := by
  have here : a.ofTurn id = false ∧ rest.any (·.ofTurn id) = false := by
    simpa [Thread.worksFor] using idle
  have same : (a.exec m r).machine.get? id = m.get? id := by
    rcases beside with ⟨turns, ran, rfl⟩ | B
    · rw [Machine.get?, Machine.get?]
      exact congrArg (·[id]?) (Machine.instances_run m turns ran)
    · exact B.same
  have unhooked : (a.exec m r).machine.hooks = ([], [], []) := by
    rcases beside with ⟨turns, ran, rfl⟩ | B
    · exact Machine.hooks_exec H.presents.unhooked r (by rintro o ⟨⟩)
    · exact B.unhooked
  have unposted : ∀ e, a ≠ .post id e := by
    rcases beside with ⟨turns, ran, rfl⟩ | B
    · rintro e ⟨⟩
    · exact B.unposted
  obtain ⟨taken, sights⟩ := H.unseen hk idle unposted
  have counted := countP_did id hk free
  rw [Instr.takes_of_ofTurn here.1, if_neg Bool.false_ne_true] at counted
  have holds : (⟨(a.exec m r).next ++ rest, (a.exec m r).reply⟩ : Thread).Fresh id →
      (did m ts k a rest r).Holds id w := fun fresh => H.moved other same unhooked fresh R
  rcases Effect.begins (effect_exec m r a) here.1 (beside.imp_right Aside.waiting) with
    ⟨waiting, clear⟩ | ⟨ticket, n, turns, ran, less, next⟩
  · have none : (a.exec m r).next.countP (·.takes id) = 0 := List.countP_eq_zero.mpr fun b hb =>
      Bool.eq_false_iff.mp (Instr.takes_of_ofTurn (Bool.eq_false_iff.mpr
        (List.any_eq_false.mp clear b hb)))
    refine ⟨holds (.inl ?_), .of_nil (by simp [taken]) (by simp [sights]), .inl ⟨waiting, ?_⟩⟩
    · rw [Thread.worksFor, List.any_append, clear, here.2]
      rfl
    · have waiting : (did m ts k a rest r).machine.core.waiting id = m.core.waiting id := waiting
      simp only [toBegin]
      omega
  · have one : (a.exec m r).next.countP (·.takes id) = 1 := by simp [next, Instr.takes]
    refine ⟨holds (.inr ⟨ticket, n, _, _, by rw [next]; rfl, ?_⟩), .of_nil (by simp [taken])
      (by simp [sights]), .inr ⟨by omega, ?_⟩⟩
    · simpa [Instr.ofTurn] using here.2
    · have less : (did m ts k a rest r).machine.core.waiting id + 1 = m.core.waiting id := less
      simp only [toBegin]
      omega

/-- A job whose turn is not the outstanding one is found to be stale. -/
theorem skips (H : Holds ⟨m, ts⟩ id w) (hk : ts[k]? = some ⟨.takeTurn id ticket n :: rest, r⟩)
    (other : ∀ l, w.turn ≠ some (k, l)) (ho : w.slot.owns ticket = false)
    (clear : rest.any (·.ofTurn id) = false)
    (R : Reachable (did m ts k (.takeTurn id ticket n) rest r)) :
    (did m ts k (.takeTurn id ticket n) rest r).Holds id w ∧
      Work.Passes id [⟨m, .takeTurn id ticket n⟩] w w ∧
      (did m ts k (.takeTurn id ticket n) rest r).toBegin id < toBegin ⟨m, ts⟩ id := by
  have skip : (Instr.takeTurn id ticket n).exec m r = ⟨m.log .debug "stale turn skipped", [], r⟩ :=
    H.presents.skips H.slot ho r
  have counted := countP_did (m := m) id hk rfl
  have takes : (Instr.takeTurn id ticket n).takes id = true := by simp [Instr.takes]
  rw [skip, List.countP_nil, if_pos takes] at counted
  refine ⟨H.moved other (by rw [skip]; rfl) (by rw [skip]; exact H.presents.unhooked) (.inl ?_) R,
    .of_nil ?_ rfl, ?_⟩
  · rw [Thread.worksFor, skip]
    exact clear
  · obtain ⟨i, hi, -, hs⟩ := H.presents.here_slot H.slot
    have hi : m.get? id = some i := hi
    simp [Section.taken, hi, Instance.owns, hs, ho]
  · have same : (did m ts k (.takeTurn id ticket n) rest r).machine.core = m.core := by
      rw [did, skip]
      rfl
    simp only [toBegin, same]
    omega

/-- Whoever has not begun is at another turn than the thread that has. -/
theorem apart (H : S.Holds id w) {rest : List Instr}
    (hk : S.threads[k]? = some ⟨.takeTurn id ticket n :: rest, r⟩)
    (other : ∀ l, w.turn ≠ some (k, l)) (ho : w.slot.owns ticket = true) : w.turn = none := by
  cases hw : w.turn with
  | none => rfl
  | some p =>
    obtain ⟨k', l⟩ := p
    obtain ⟨ticket', rest', r', hk', ho', -⟩ := H.amid k' l hw
    have hne : k ≠ k' := fun h => other l (h ▸ hw)
    obtain rfl := Slot.owns_unique ho ho'
    exact absurd rfl (H.turning.apart hk hk' hne (List.mem_cons_self ..)
      (List.mem_append_right l (List.mem_cons_self ..)) rfl)

/-- A thread that comes leaves everything where it was. -/
theorem joins {m' : Machine} {t : Thread} (H : Holds ⟨m, ts⟩ id w) (fresh : t.Fresh id)
    (same : m'.get? id = m.get? id) (hooks : m'.hooks = m.hooks) (R : Reachable ⟨m', ts ++ [t]⟩) :
    Holds ⟨m', ts ++ [t]⟩ id w := by
  refine H.still R same (hooks.trans H.presents.unhooked) (fun k t' hk => ?_) fun k l ht => ?_
  · rw [List.getElem?_append] at hk
    split at hk
    · exact .inl hk
    · obtain rfl := List.mem_singleton.mp (List.mem_of_getElem? hk)
      exact .inr fresh
  · obtain ⟨_, _, _, hk, -⟩ := H.amid k l ht
    exact List.getElem?_append_left (List.getElem?_eq_some_iff.mp hk).1

/-- A worker does a section of its turn. -/
theorem works (H : Holds ⟨m, ts⟩ id w) (hk : ts[k]? = some ⟨a :: rest, r⟩)
    (busy : (⟨a :: rest, r⟩ : Thread).worksFor id = true)
    (R : Reachable (did m ts k a rest r)) :
    ∃ w', (did m ts k a rest r).Holds id w' ∧ Work.Passes id [⟨m, a⟩] w w' ∧
      Work.Less id (w', (did m ts k a rest r).toBegin id) (w, toBegin ⟨m, ts⟩ id) := by
  by_cases own : ∃ l, w.turn = some (k, l)
  · obtain ⟨l, hw⟩ := own
    obtain ⟨ticket, later, r', hk', ho, clear, lead⟩ := H.amid k l hw
    obtain ⟨f, s, turn, owed, g⟩ := w
    obtain rfl : turn = some (k, l) := hw
    have agenda := congrArg Thread.agenda (Option.some.inj (hk.symm.trans hk'))
    cases lead with
    | nil =>
      obtain ⟨rfl, rfl⟩ := List.cons.inj agenda
      exact H.finishes hk ho clear R _ _
    | cons D go =>
      obtain ⟨rfl, rfl⟩ := List.cons.inj agenda
      exact H.goes_on hk ho clear D go R _ _
  · have other : ∀ l, w.turn ≠ some (k, l) := fun l h => own ⟨l, h⟩
    rcases H.others k _ hk other with idle | ⟨ticket, n, later, r', h, clear⟩
    · cases busy.symm.trans idle
    · cases h
      cases ho : w.slot.owns ticket with
      | false =>
        obtain ⟨H', P, less⟩ := H.skips hk other ho clear R
        exact ⟨w, H', P, .job less⟩
      | true =>
        have hw := H.apart hk other ho
        obtain ⟨hg, owed, -⟩ := H.between hw
        obtain ⟨f, s, turn, _, g⟩ := w
        obtain ⟨rfl, rfl, rfl⟩ : f = g ∧ _ = [] ∧ turn = none := ⟨hg, owed, hw⟩
        exact H.takes hk ho clear R _ _

/-- What one step comes to. -/
theorem step (H : S.Holds id w) (A : Attends id b S l T) :
    ∃ w', T.Holds id w' ∧ Work.Passes id l w w' ∧
      (b = true → Work.Less id (w', T.toBegin id) (w, S.toBegin id)) ∧
      (b = false → w' = w ∧ T.toBegin id = S.toBegin id) := by
  have R := H.reachable_step A
  cases A with
  | @call m ts o =>
    refine ⟨w, H.joins (.inl rfl) rfl rfl R, .of_nil rfl rfl, by rintro ⟨⟩, fun _ => ⟨rfl, ?_⟩⟩
    simp only [toBegin, pending_append m m ts]
    simp [Thread.ofOp, Instr.takes]
  | refuse b =>
    exact ⟨w, H.still R rfl H.presents.unhooked (fun _ _ h => .inl h) fun _ _ _ => rfl,
      .of_nil rfl rfl, by rintro ⟨⟩, fun _ => ⟨rfl, rfl⟩⟩
  | @claim m ts n j hj hq =>
    have begun : (m.setPhase n .running).core.waiting id + (if j.owner = id then 1 else 0) =
        m.core.waiting id := Core.waiting_begun (c := m.core) id hj hq
    have count : (Thread.ofJob j.owner j.ticket n).agenda.countP (·.takes id) =
        if j.owner = id then 1 else 0 := by
      simp [Thread.ofJob, Instr.takes, List.countP_cons]
    have fresh : (Thread.ofJob j.owner j.ticket n).Fresh id := by
      by_cases ho : j.owner = id
      · exact .inr ⟨j.ticket, n, [.jobDone n], .nothing, ho ▸ rfl, rfl⟩
      · exact .inl (by simp [Thread.worksFor, Thread.ofJob, Instr.ofTurn, ho])
    refine ⟨w, H.joins fresh rfl rfl R, .of_nil rfl rfl, fun ho => .job ?_, fun ho => ⟨rfl, ?_⟩⟩
    · rw [if_pos (beq_iff_eq.mp ho)] at begun count
      simp only [toBegin, pending_append _ m ts, List.countP_append, count]
      omega
    · rw [if_neg (beq_eq_false_iff_ne.mp ho)] at begun count
      simp only [toBegin, pending_append _ m ts, List.countP_append, count]
      omega
  | @move m m' ts k t t' a hk ha hs who =>
    obtain ⟨b, rest, hb, free, rfl, rfl⟩ := Thread.step?_eq_some hs
    obtain ⟨agenda, r⟩ := t
    obtain rfl : agenda = b :: rest := hb
    obtain rfl : b = a := Option.some.inj ha
    cases busy : (⟨b :: rest, r⟩ : Thread).worksFor id with
    | true =>
      obtain ⟨w', H', P, less⟩ := H.works hk busy R
      exact ⟨w', H', P, fun _ => less, fun h => by simp at h⟩
    | false =>
      have other : ∀ l, w.turn ≠ some (k, l) := fun l h => by
        obtain ⟨ticket, later, r', hk', -⟩ := H.amid k l h
        rw [Option.some.inj (hk.symm.trans hk')] at busy
        simp [Thread.worksFor, Instr.ofTurn] at busy
      obtain ⟨H', P, ⟨same, count⟩ | ⟨begun, less⟩⟩ := H.beside hk other free busy
        (who.resolve_left (Bool.eq_false_iff.mp busy)) R
      · exact ⟨w, H', P, fun h => by simp [same] at h, fun _ => ⟨rfl, count⟩⟩
      · exact ⟨w, H', P, fun _ => .job less, fun h => by simp [begun] at h⟩

end Holds

/-! ## Main result -/

/-- What any number of steps come to. -/
theorem Attended.holds {w : Work} {h : List Section} (A : Attended id S h T) (H : S.Holds id w) :
    ∃ w', T.Holds id w' ∧ Work.Passes id h w w' := by
  induction A with
  | refl => exact ⟨w, H, .of_nil rfl rfl⟩
  | snoc _ A ih =>
    obtain ⟨w₁, H₁, P⟩ := ih
    obtain ⟨w₂, H₂, P', -⟩ := H₁.step A
    exact ⟨w₂, H₂, P.trans P'⟩

namespace Holds

variable {w : Work}

/-- What happens beside the instance leaves it where it was. -/
theorem kept (H : S.Holds id w)
    (beside : Relation.ReflTransGen (fun S T => ∃ l, Attends id false S l T) S T) :
    T.Holds id w ∧ T.toBegin id = S.toBegin id := by
  induction beside with
  | refl => exact ⟨H, rfl⟩
  | tail _ A ih =>
    obtain ⟨HU, count⟩ := ih
    obtain ⟨l, A⟩ := A
    obtain ⟨w', H', -, -, same⟩ := HU.step A
    obtain ⟨rfl, count'⟩ := same rfl
    exact ⟨H', count'.trans count⟩

/-- There is an end to what is done for the instance. -/
theorem acc (H : S.Holds id w) : Acc (fun U T => T.Serves id U) S := by
  have A := H.sound.acc (S.toBegin id)
  generalize hx : (w, S.toBegin id) = x at A
  induction A generalizing S w with
  | intro x _ ih =>
    subst hx
    refine ⟨_, fun T ⟨U, l, beside, A⟩ => ?_⟩
    obtain ⟨HU, count⟩ := H.kept beside
    obtain ⟨w', H', -, less, -⟩ := HU.step A
    exact ih _ (count ▸ less rfl) H' rfl

/-- Whoever works for the instance need not wait. -/
theorem free (H : S.Holds id w) {t : Thread} (hk : S.threads[k]? = some t)
    (busy : t.worksFor id = true) :
    ∃ a rest, t.agenda = a :: rest ∧ a.blocked S.machine = false := by
  by_cases own : ∃ l, w.turn = some (k, l)
  · obtain ⟨l, hw⟩ := own
    obtain ⟨ticket, rest, r, hk', -, -, lead⟩ := H.amid k l hw
    obtain rfl := Option.some.inj (hk.symm.trans hk')
    cases l with
    | nil => exact ⟨_, _, rfl, rfl⟩
    | cons a l => exact ⟨a, l ++ .finishTurn id ticket :: rest, rfl, lead.free H.presents⟩
  · rcases H.others k t hk (fun l h => own ⟨l, h⟩) with idle | ⟨ticket, n, rest, r, rfl, -⟩
    · cases busy.symm.trans idle
    · exact ⟨_, _, rfl, rfl⟩

/-- As long as the instance is busy, something can be done for it. -/
theorem can (H : S.Holds id w) (busy : S.Busy id) : ∃ l T, Attends id true S l T := by
  rcases busy with ⟨n, j, hj, ho, hq⟩ | ⟨t, ht, busy⟩
  · have A : Attends id (j.owner == id) S [] _ := .claim hj hq
    exact ⟨_, _, beq_iff_eq.mpr ho ▸ A⟩
  · obtain ⟨k, hk⟩ := List.getElem?_of_mem ht
    obtain ⟨a, rest, ha, free⟩ := H.free hk busy
    have step : t.step? S.machine = some ((a.exec S.machine t.reply).machine,
        ⟨(a.exec S.machine t.reply).next ++ rest, (a.exec S.machine t.reply).reply⟩) := by
      simp [Thread.step?, ha, free]
    have A : Attends id _ S _ _ := .move hk (by rw [ha]; rfl) step (.inl busy)
    rw [busy, Bool.true_or] at A
    exact ⟨_, _, A⟩

/-- When the instance is busy no longer, it is idle and its queue empty. -/
theorem ends (H : S.Holds id w) (rest : ¬ S.Busy id) :
    w.turn = none ∧ w.slot.current = none ∧ w.slot.queue.events = [] := by
  have booked := H.reachable.coherent.booked
  have unserved : ∀ b ∈ S.pending, ∀ ticket, b.turn? ≠ some (id, ticket) := fun b hb ticket hx => by
    obtain ⟨t, ht, hb⟩ := mem_pending.mp hb
    exact rest (.inr ⟨t, ht, List.any_eq_true.mpr ⟨b, hb, Instr.ofTurn_iff.mpr ⟨ticket, hx⟩⟩⟩)
  have current : w.slot.current = none := by
    refine Option.eq_none_iff_forall_ne_some.mpr fun turn hc => ?_
    obtain ⟨j, hj, ho, -, hq | ⟨-, hat | hat⟩⟩ := booked.outstanding id _ turn H.slot hc
    · exact rest (.inl ⟨_, j, hj, ho, hq⟩)
    · exact unserved _ hat _ rfl
    · exact unserved _ hat _ rfl
  refine ⟨?_, current, Classical.byContradiction fun hq => ?_⟩
  · cases hw : w.turn with
    | none => rfl
    | some p =>
      obtain ⟨ticket, later, r, -, ho, -⟩ := H.amid p.1 p.2 hw
      obtain ⟨turn, hc, -⟩ := Slot.owns_iff.mp ho
      cases current.symm.trans hc
  · refine booked.busy id _ H.slot ?_ current
    exact Slot.hasWork_iff.mpr ⟨H.running, by simpa [Queue.isEmpty] using hq⟩

end Holds

/-- Nobody has begun with a turn of the instance or holds its script, and no collaborator calls
back. -/
structure LeftAlone (id : Nat) (S : System) : Prop where
  between : ∀ t ∈ S.threads, t.Fresh id
  unheld : ∀ i, S.machine.get? id = some i → i.held = false
  unhooked : S.machine.hooks = ([], [], [])

theorem LeftAlone.holds {i : Instance} (alone : S.LeftAlone id) (R : Reachable S)
    (hi : S.machine.get? id = some i) (running : i.slot.running = true)
    (quiet : i.program.Quiet) (queued : i.slot.queue.events ≠ []) :
    S.Holds id ⟨i.aspect, i.slot, none, [], i.aspect⟩ where
  reachable := R
  presents := ⟨alone.unhooked, i, hi, rfl⟩
  slot := Machine.slot_of_get? hi
  running := running
  quiet := quiet
  unheld := Instance.unheld_iff.mp (alone.unheld i hi)
  others _ t hk _ := alone.between t (List.mem_of_getElem? hk)
  between _ := ⟨rfl, rfl, fun h => absurd h queued⟩
  amid := nofun

/-- Let an instance run with events queued, its handlers ask for nothing, and nobody but the workers
at its turns act on it, whatever else happens on the host meanwhile and in whatever order its jobs
are carried out, stale ones among them. Then what is done for it comes to an end, and as long as it
has not, more can be done. In the end the instance is idle and its queue empty; one turn has been
taken for each event that was queued, in order; what was called is the handlers of those events,
the reserved records left out, each in the state that the switches before it have left; and the
named state is what all the switches have left. -/
theorem worked_off {i : Instance} (R : Reachable S) (hi : S.machine.get? id = some i)
    (running : i.slot.running = true) (alone : S.LeftAlone id) (quiet : i.program.Quiet)
    (queued : i.slot.queue.events ≠ []) :
    Acc (fun U T => T.Serves id U) S ∧ ∀ h T, Attended id S h T →
      (T.Busy id → ∃ l U, Attends id true T l U) ∧
      (¬ T.Busy id → (h.flatMap (Section.taken id)).map (·.2) = i.slot.queue.events ∧
        h.flatMap (Section.sights id) = answers i.state i.slot.queue.events ∧
        ∃ j, T.machine.get? id = some j ∧ j.execution = .idle ∧ j.slot.queue.events = [] ∧
          j.state = switches i.state i.slot.queue.events) := by
  have H := alone.holds R hi running quiet queued
  refine ⟨H.acc, fun h T A => ?_⟩
  obtain ⟨w, H', P⟩ := A.holds H
  refine ⟨H'.can, fun rest => ?_⟩
  obtain ⟨turn, current, empty⟩ := H'.ends rest
  obtain ⟨goal, owed, -⟩ := H'.between turn
  obtain ⟨j, hj, hf, hs⟩ := H'.presents.here_slot H'.slot
  have none : w.left = [] := by simp [Work.left, owed, empty, answers]
  have taken := P.taken
  have sights := P.sights
  rw [empty, List.append_nil] at taken
  rw [none, List.append_nil] at sights
  refine ⟨taken, sights, j, hj, ?_, hs ▸ empty, ?_⟩
  · simp [Instance.execution, hs, current, H'.running]
  · calc
      j.state = w.aspect.state := congrArg Aspect.state hf
      _ = w.final := by simp [Work.final, goal, empty, switches]
      _ = switches i.state i.slot.queue.events := P.final

/-- A host whose pool gives no job back, with an instance that was stopped in vain and started
again, has been told to switch its named state, and has an event queued that its handler fails
on. -/
def switching : System :=
  (System.visits 40 ⟨.bare true, []⟩ [.loadNew "a" 1 (.answering [("state_entry", []),
    ("x", [.increment "n", .finish (.returned (.fault ⟨"broken", none⟩))])]), .stop "a" 5, .start "a",
    .setState "a" "other", .post "a" (.plain "x" [])]).2

theorem worked_off_switching : ∃ i, switching.machine.get? 0 = some i ∧
    i.slot.queue.events.length = 5 ∧ switching.machine.core.waiting 0 = 2 ∧
    Acc (fun U T => T.Serves 0 U) switching ∧ ∀ h T, Attended 0 switching h T →
      (T.Busy 0 → ∃ l U, Attends 0 true T l U) ∧
      (¬ T.Busy 0 → (h.flatMap (Section.taken 0)).map (·.2) = i.slot.queue.events ∧
        h.flatMap (Section.sights 0) = answers i.state i.slot.queue.events ∧
        ∃ j, T.machine.get? 0 = some j ∧ j.execution = .idle ∧ j.slot.queue.events = [] ∧
          j.state = switches i.state i.slot.queue.events) := by
  obtain ⟨i, hi, running, unheld, five, two, quiet⟩ : ∃ i, switching.machine.get? 0 = some i ∧
      i.slot.running = true ∧ i.held = false ∧ i.slot.queue.events.length = 5 ∧
      switching.machine.core.waiting 0 = 2 ∧ i.program.Quiet := by
    refine ⟨_, rfl, rfl, rfl, rfl, rfl, Program.quiet_answering fun name actions h => ?_⟩
    simp only [List.mem_cons, List.not_mem_nil, or_false, Prod.mk.injEq] at h
    rcases h with ⟨rfl, rfl⟩ | ⟨rfl, rfl⟩
    · exact .nil
    · exact .simple rfl rfl .finish
  have nobody : switching.threads.any (·.worksFor 0) = false := rfl
  have alone : switching.LeftAlone 0 := by
    refine ⟨fun t ht => .inl (Bool.eq_false_iff.mpr (List.any_eq_false.mp nobody t ht)),
      fun j hj => ?_, rfl⟩
    cases hi.symm.trans hj
    exact unheld
  have queued : i.slot.queue.events ≠ [] := fun h => by simp [h] at five
  exact ⟨i, hi, five, two, worked_off ⟨_, Life.visits true 40 _⟩ hi running alone quiet queued⟩

end System

end ScriptHost
