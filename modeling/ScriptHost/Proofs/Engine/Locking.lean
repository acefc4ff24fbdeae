import ScriptHost.Proofs.Engine.Change
import ScriptHost.Proofs.Engine.Coherent
import ScriptHost.Proofs.Engine.Leading

/-!
# Who holds a script

A handler's run locks the script of its instance, and its sections come from
nowhere else (`Machine.next_handles`). So the script is held by one handler at
most (`System.Locked`), and nothing that a handler writes is concealed once it
has let the script go (`Life.not_concealed`).
-/

namespace ScriptHost

/-! ## The run of a handler -/

namespace Instr

/-- The instance whose script a section has locked. -/
def holds? : Instr → Option Nat
  | .enter v | .act v _ => some v.id
  | .unlock id => some id
  | _ => none

/-- The instance whose variables a section leaves to be seen later. -/
def conceals? : Instr → Option Nat
  | .act v _ => some v.id
  | .settle id => some id
  | _ => none

/-- The section belongs to no handler's run. -/
def outside (a : Instr) : Bool := a.holds?.isNone && a.conceals?.isNone

theorem outside_iff {a : Instr} : a.outside = true ↔ a.holds? = none ∧ a.conceals? = none := by
  simp [outside]

theorem outside_of_apart {a : Instr} (h : a.apart = true) : a.outside = true := by
  cases a <;> first | rfl | cases h

end Instr

/-- What a section of a handler's run leads to: the run goes on, or comes to its end. -/
inductive Handles (id : Nat) : List Instr → Prop where
  | onward (before : List Instr) {v : Invocation} {l : List Action} : v.id = id →
      (∀ b ∈ before, b.outside = true) → Handles id (before ++ [.act v l])
  | leaves {v : Invocation} {o : Outcome} : v.id = id → Handles id (Machine.leave v o)

theorem Machine.handles_act (m : Machine) (i : Instance) (v : Invocation) (l : List Action) :
    Handles v.id (m.act i v l).2 := by
  have one : ∀ (w : Invocation) (l : List Action), w.id = v.id → Handles v.id [.act w l] :=
    fun w l hw => .onward [] hw (by simp)
  cases l with
  | nil => exact .leaves rfl
  | cons a rest =>
    cases a with
    | perform ops =>
      exact .onward _ rfl fun b hb => Instr.outside_of_apart (Instr.apart_nested b hb)
    | takeArgument => simp only [act]; split <;> exact one _ _ rfl
    | cancelIfInterrupted =>
      simp only [act]
      split
      · exact .leaves rfl
      · exact one _ _ rfl
    | park b =>
      exact .onward [.parked v.job b m.releases] rfl
        (by simp [Instr.outside, Instr.holds?, Instr.conceals?])
    | finish => exact .leaves rfl
    | request q => exact one { v with requests := v.requests ++ [q] } rest rfl
    | _ => exact one _ _ rfl

/-- Sections between the taking of an event and its handler, and the end of a turn. -/
def Instr.turnOnly : Instr → Bool
  | .readDetected _ | .lockScript _ | .enter _ | .finishTurn _ _ => true
  | _ => false

theorem Instr.turnOnly_of_apart {a : Instr} (h : a.apart = true) : a.turnOnly = false := by
  cases a <;> first | rfl | cases h

/-- A turn takes an event, looks at what was detected, locks the script, and then its handler
begins; nothing else leads there. -/
theorem Instr.LeadsTo.turnOnly {m : Machine} {a b : Instr} (h : a.LeadsTo m b)
    (ht : b.turnOnly = true) :
    (∃ id ticket n, a = .takeTurn id ticket n ∧
        (b = .finishTurn id ticket ∨ ∃ w, b = .readDetected w)) ∨
      (∃ w l, a = .readDetected w ∧ b = .lockScript { w with detected := l }) ∨
      ∃ w, a = .lockScript w ∧ b = .enter w := by
  have other : b.apart = true → False := fun h =>
    Bool.false_ne_true ((turnOnly_of_apart h).symm.trans ht)
  by_cases on : a.leadsOn = false
  · exact (other (h.apart on)).elim
  · cases h with
    | take => exact .inl ⟨_, _, _, rfl, .inr ⟨_, rfl⟩⟩
    | finish => exact .inl ⟨_, _, _, rfl, .inl rfl⟩
    | read => exact .inr (.inl ⟨_, _, rfl, rfl⟩)
    | enter => exact .inr (.inr ⟨_, rfl, rfl⟩)
    | call h | deleteHook h | messageHook h => exact (other (Instr.apart_nested b h)).elim
    | request h => exact (other (Instr.apart_request b h)).elim
    | _ => first | cases ht | exact absurd rfl on

/-- Nothing leads into a handler's run but the lock of its script and the run itself. -/
theorem Instr.LeadsTo.outside {m : Machine} {a b : Instr} (h : a.LeadsTo m b)
    (lock : ∀ v, a ≠ .lockScript v) (enter : ∀ v, a ≠ .enter v) (act : ∀ v l, a ≠ .act v l) :
    b.outside = true := by
  by_cases on : a.leadsOn = false
  · exact outside_of_apart (h.apart on)
  · cases h with
    | settle | enter => exact absurd rfl (lock _)
    | begin => exact absurd rfl (enter _)
    | act | call | park | leaveSettle | leaveUnlock | leave => exact absurd rfl (act _ _)
    | deleteHook h | messageHook h => exact outside_of_apart (apart_nested b h)
    | request h => exact outside_of_apart (apart_request b h)
    | _ => first | rfl | exact absurd rfl on

/-- A handler's run begins when the script is locked, and goes on until the script is let go; no
other section leads into it. -/
theorem Machine.next_handles (m : Machine) (r : Reply) (a : Instr) :
    (∀ b ∈ (a.exec m r).next, b.outside = true) ∧
        (∀ v, a = .enter v ∨ (∃ l, a = .act v l) → m.get? v.id = none) ∨
      (∃ v, a = .lockScript v ∧ (a.exec m r).next = [.settle v.id, .enter v]) ∨
      ∃ v, (a = .enter v ∨ ∃ l, a = .act v l) ∧ Handles v.id (a.exec m r).next := by
  have begun : ∀ {v : Invocation} {f : Instance → Machine × List Instr},
      (∀ i, Handles v.id (f i).2) → (∀ b ∈ (Instr.leads m r v.id f).next, b.outside = true) ∧
        m.get? v.id = none ∨ Handles v.id (Instr.leads m r v.id f).next := fun h => by
    unfold Instr.leads
    split
    · exact .inr (h _)
    · next hi => exact .inl ⟨by simp [Instr.plain], hi⟩
  have other : (∀ v, a ≠ .lockScript v) → (∀ v, a ≠ .enter v) → (∀ v l, a ≠ .act v l) →
      (∀ b ∈ (a.exec m r).next, b.outside = true) ∧
        (∀ v, a = .enter v ∨ (∃ l, a = .act v l) → m.get? v.id = none) := fun hk he ha => by
    refine ⟨fun b hb => (m.leadsTo r a b hb).outside hk he ha, ?_⟩
    rintro v (h | ⟨l, h⟩)
    · exact absurd h (he v)
    · exact absurd h (ha v l)
  cases a with
  | lockScript v => exact .inr (.inl ⟨v, rfl, rfl⟩)
  | enter v =>
    have enters : ∀ i, Handles v.id (m.enter i v).2 := fun i => by
      simp only [enter]
      split <;> exact .onward [] rfl (by simp)
    rcases begun enters with ⟨ho, hi⟩ | h
    · refine .inl ⟨ho, ?_⟩
      rintro w (hw | ⟨l, hw⟩) <;> cases hw
      exact hi
    · exact .inr (.inr ⟨v, .inl rfl, h⟩)
  | act v l =>
    rcases begun fun i => handles_act m i v l with ⟨ho, hi⟩ | h
    · refine .inl ⟨ho, ?_⟩
      rintro w (hw | ⟨l, hw⟩) <;> cases hw
      exact hi
    · exact .inr (.inr ⟨v, .inr ⟨l, rfl⟩, h⟩)
  | _ => exact .inl (other (by simp) (by simp) (by simp))

namespace Handles

variable {id : Nat} {l : List Instr}

theorem holds (h : Handles id l) : l.filterMap Instr.holds? = [id] := by
  cases h with
  | onward before hv hb =>
    have : before.filterMap Instr.holds? = [] :=
      List.filterMap_eq_nil_iff.mpr fun b h => (Instr.outside_iff.mp (hb b h)).1
    rw [List.filterMap_append, this]
    exact congrArg (fun n => [n]) hv
  | leaves hv => exact congrArg (fun n => [n]) hv

theorem conceals (h : Handles id l) : ∃ b ∈ l, b.conceals? = some id := by
  cases h with
  | onward _ hv => exact ⟨_, List.mem_append_right _ (List.mem_singleton_self _), congrArg some hv⟩
  | leaves hv => exact ⟨_, List.mem_cons_self, congrArg some hv⟩

end Handles

/-! ## One handler at a time -/

/-- What is concealed is shown again before the script is let go, and no handler acts in
between. -/
def Instr.Shows (later : List Instr) (a : Instr) : Prop :=
  ∀ id, a = .settle id → ∃ b ∈ later, b.holds? = some id ∧ ∀ v l, b ≠ .act v l

theorem Instr.shows_of_outside {l : List Instr} {f : List Instr → List Instr}
    (h : ∀ b ∈ l, b.outside = true) : Lined (fun later => Instr.Shows (f later)) l :=
  .of_forall fun b hb later id he => by
    subst he
    cases h _ hb

theorem Handles.lined {id : Nat} {l rest : List Instr} (h : Handles id l) :
    Lined (fun later => Instr.Shows (later ++ rest)) l := by
  cases h with
  | onward _ _ hb =>
    exact Lined.append (Instr.shows_of_outside hb) ⟨nofun, trivial⟩
  | leaves =>
    refine ⟨?_, nofun, nofun, trivial⟩
    rintro id he
    cases he
    exact ⟨.unlock _, by simp, rfl, nofun⟩

/-- A script that a handler holds stays so until the handler lets it go. -/
theorem Instr.holder_alter {a : Instr} {id : Nat} {i : Instance} (ha : a ≠ .unlock id)
    (h : i.holder = some .handler) : (a.alter id i).holder = some .handler := by
  have A := a.alteration id i
  generalize a.alter id i = j at A ⊢
  cases A with
  | edit e => exact Instance.holder_edit h e
  | publish => exact Instance.holder_publish h
  | lock => rfl
  | unlock => exact absurd rfl ha
  | letGo e => rw [Instance.letGo_of_handler h]; exact h
  | _ => exact h

namespace System

/-- The script of an instance is held by one handler at most, as the instance says, and what a
handler conceals is shown before it lets the script go. -/
structure Locked (S : System) : Prop where
  once : (S.pending.filterMap Instr.holds?).Nodup
  held : ∀ id ∈ S.pending.filterMap Instr.holds?,
    ∃ i, S.machine.get? id = some i ∧ i.holder = some .handler
  agendas : ∀ t ∈ S.threads, Lined Instr.Shows t.agenda

section

variable {S T : System} {a : Instr} {rest : List Instr} {reply : Reply} {others : List Thread}
  {id : Nat} {i : Instance}

theorem Moves.get?_after (M : Moves S a rest reply others T) (hi : S.machine.get? id = some i) :
    ∃ s p, T.machine.get? id = some { a.alter id i with slot := s, startParam := p } :=
  M.machine ▸ Machine.get?_exec reply a hi

theorem Moves.locked (M : Moves S a rest reply others T) (C : S.Coherent) (L : S.Locked) :
    T.Locked := by
  have still : ∀ {id : Nat}, a ≠ .unlock id → id ∈ S.pending.filterMap Instr.holds? →
      ∃ i, T.machine.get? id = some i ∧ i.holder = some .handler := fun ha h => by
    obtain ⟨i, hi, hh⟩ := L.held _ h
    obtain ⟨s, p, hi'⟩ := M.get?_after hi
    exact ⟨_, hi', Instr.holder_alter ha hh⟩
  have holders : ∀ {id : Nat}, id ∈ (elsewhere rest others).filterMap Instr.holds? →
      ∃ i, T.machine.get? id = some i ∧ i.holder = some .handler := fun h =>
    still (by rintro rfl; exact M.held_once L.once rfl h)
      (M.held_before.mpr (.inr h))
  have agendas : Lined (fun later => Instr.Shows (later ++ rest)) (a.exec S.machine reply).next →
      ∀ t ∈ T.threads, Lined Instr.Shows t.agenda := fun hn t ht => by
    rcases M.threads t ht with h | h
    · exact h ▸ Lined.append hn (L.agendas _ M.mover).2
    · exact L.agendas t (M.still t h)
  rcases Machine.next_handles S.machine reply a with ⟨out, -⟩ | ⟨v, rfl, hn⟩ | ⟨v, ha, hd⟩
  · have none : (a.exec S.machine reply).next.filterMap Instr.holds? = [] :=
      List.filterMap_eq_nil_iff.mpr fun b hb => (Instr.outside_iff.mp (out b hb)).1
    refine ⟨M.held_nodup L.once (.inl none), fun id h => ?_,
      agendas (Instr.shows_of_outside out)⟩
    exact holders ((M.held_after.mp h).resolve_left (by simp [none]))
  · obtain ⟨i, hi⟩ : ∃ i, S.machine.get? v.id = some i := by
      obtain ⟨i, hi, -⟩ := Machine.exists_get?
        (List.getElem?_eq_getElem (show v.id < S.machine.core.slots.length from M.fits C))
      exact ⟨i, hi⟩
    have unheld : i.held = false := by
      have := M.free
      simpa only [Instr.blocked, hi] using this
    refine ⟨M.held_nodup L.once (.inr (.inr ?_)), fun id h => ?_, agendas ?_⟩
    · rw [hn]
      refine ⟨List.pairwise_singleton _ _, fun k hk h => ?_⟩
      obtain rfl : k = v.id := List.mem_singleton.mp hk
      obtain ⟨j, hj, hh⟩ := L.held _ (M.held_before.mpr (.inr h))
      obtain rfl : i = j := Option.some.inj (hi.symm.trans hj)
      exact Bool.false_ne_true (unheld.symm.trans (Instance.held_of_holder hh))
    · rcases M.held_after.mp h with h | h
      · rw [hn] at h
        obtain rfl : id = v.id := List.mem_singleton.mp h
        obtain ⟨s, p, hi'⟩ := M.get?_after hi
        refine ⟨_, hi', ?_⟩
        simp only [Instr.alter, Instr.change?, if_true]
      · exact holders h
    · rw [hn]
      refine ⟨?_, nofun, trivial⟩
      rintro id he
      cases he
      exact ⟨.enter v, by simp, rfl, nofun⟩
  · have own : [a].filterMap Instr.holds? = [v.id] := by
      rcases ha with rfl | ⟨l, rfl⟩ <;> rfl
    refine ⟨M.held_nodup L.once (.inr (.inl (hd.holds.trans own.symm))), fun id h => ?_,
      agendas hd.lined⟩
    rcases M.held_after.mp h with h | h
    · obtain rfl : id = v.id := List.mem_singleton.mp (hd.holds ▸ h)
      refine still ?_ (M.held_before.mpr (.inl ?_))
      · rcases ha with rfl | ⟨l, rfl⟩ <;> exact nofun
      · rcases ha with rfl | ⟨l, rfl⟩ <;> rfl
    · exact holders h

end

theorem Life.locked {h : List Section} {S : System} (H : Life h S) : S.Locked := by
  refine H.induct_steps (P := fun _ S => S.Locked) ?_ ?_ ?_ ?_ ?_
  · exact fun m _ => ⟨List.nodup_nil, fun _ h => (List.not_mem_nil h).elim,
      fun _ h => (List.not_mem_nil h).elim⟩
  · intro h m ts o L
    have same : (pending ⟨m, ts ++ [.ofOp o]⟩).filterMap Instr.holds? =
        (pending ⟨m, ts⟩).filterMap Instr.holds? := by
      rw [pending_append m m, List.filterMap_append]
      exact List.append_nil _
    refine ⟨same ▸ L.once, same ▸ L.held, fun t ht => ?_⟩
    rcases List.mem_append.mp ht with ht | ht
    · exact L.agendas t ht
    · obtain rfl := List.mem_singleton.mp ht
      exact ⟨nofun, trivial⟩
  · intro h m ts n j _ _ _ L
    have same : (pending ⟨m.setPhase n .running, ts ++ [.ofJob j.owner j.ticket n]⟩).filterMap
        Instr.holds? = (pending ⟨m, ts⟩).filterMap Instr.holds? := by
      rw [pending_append _ m, List.filterMap_append]
      exact List.append_nil _
    refine ⟨same ▸ L.once, same ▸ L.held, fun t ht => ?_⟩
    rcases List.mem_append.mp ht with ht | ht
    · exact L.agendas t ht
    · obtain rfl := List.mem_singleton.mp ht
      exact ⟨nofun, nofun, trivial⟩
  · exact fun h m ts b L => ⟨L.once, L.held, L.agendas⟩
  · exact fun h S T a rest reply others H M L => M.locked H.coherent L

/-- While somebody is to show what a handler has left, no handler of the instance acts. -/
theorem Locked.not_acting {S : System} (L : S.Locked) {id : Nat} (h : .settle id ∈ S.pending)
    {v : Invocation} {l : List Action} (ha : .act v l ∈ S.pending) : v.id ≠ id := by
  rintro rfl
  obtain ⟨t, ht, hat⟩ := mem_pending.mp h
  obtain ⟨later, hl, hs⟩ := (L.agendas t ht).of_mem hat
  obtain ⟨b, hb, hk, other⟩ := hs v.id rfl
  exact other v l (eq_of_held L.once (mem_pending.mpr ⟨t, ht, hl b hb⟩) ha hk rfl)

/-- While no handler holds the script, no section of a handler's run is pending that conceals
anything. -/
theorem Life.not_concealed {h : List Section} {S : System} (H : Life h S) {id : Nat}
    {i : Instance} (hi : S.machine.get? id = some i) (free : i.holder ≠ some .handler) :
    ∀ a ∈ S.pending, a.conceals? ≠ some id := by
  intro a ha hc
  have holder : id ∈ S.pending.filterMap Instr.holds? := by
    cases a with
    | act v l => cases hc; exact List.mem_filterMap.mpr ⟨_, ha, rfl⟩
    | settle =>
      cases hc
      obtain ⟨t, ht, hat⟩ := mem_pending.mp ha
      obtain ⟨later, hl, hs⟩ := (H.locked.agendas t ht).of_mem hat
      obtain ⟨b, hb, hk, -⟩ := hs id rfl
      exact List.mem_filterMap.mpr ⟨b, mem_pending.mpr ⟨t, ht, hl b hb⟩, hk⟩
    | _ => cases hc
  obtain ⟨j, hj, hh⟩ := H.locked.held id holder
  obtain rfl : i = j := Option.some.inj (hi.symm.trans hj)
  exact free hh

end System

end ScriptHost
