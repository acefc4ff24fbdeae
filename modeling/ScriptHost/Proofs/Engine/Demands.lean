import ScriptHost.Proofs.Engine.ForcedAborts
import ScriptHost.Proofs.Engine.Stopping

/-!
# What a stop asks of the pool

A stop goes up to four steps: it waits, comes back from that, looks whether the
turn is still outstanding, and forces it to end (`Climb`). With each step it is
known what came before, so that it waits once and aborts once, and the latter
only where the wait has failed, the turn was outstanding after it, and the
script was not deleting its entity (`Climb.asked`). While an instance does not
run nobody comes to wait for it, and who waits goes on from step to step
(`System.Moves.awaiting`).
-/

namespace ScriptHost

/-! ## What a stop asks of the pool -/

/-- The section is one in which a stop of the instance waits for a turn of it, or forces it to
end. -/
def Section.awaits (id : Nat) (s : Section) : Bool := s.instr.awaits? == some id

/-- What stops of the instance ask of the pool in a section: that it wait for a job, or abort it. -/
def Section.demands (id : Nat) (s : Section) : List Note :=
  if s.awaits id then s.notes.filter Note.demand else []

theorem Section.demands_eq_nil {id : Nat} {s : Section} (h : s.awaits id = false) :
    s.demands id = [] := if_neg (Bool.eq_false_iff.mp h)

theorem Section.demands_eq {m : Machine} {a : Instr} {id : Nat} {l : List Note}
    (ha : a.awaits? = some id) (h : (a.exec m .nothing).machine.trace = l ++ m.trace) :
    Section.demands id ⟨m, a⟩ = (l.filter Note.demand).reverse := by
  rw [demands, if_pos (by simp [awaits, ha]), notes_eq h, List.filter_reverse]

@[simp] theorem Section.demands_stopWait (m : Machine) (id ms : Nat) (turn : Turn) :
    Section.demands id ⟨m, .stopWait id ms turn⟩ = [.wait turn.job ms] := by
  refine demands_eq (l := [.wait turn.job ms]) rfl ?_
  simp only [Instr.exec]
  split <;> rfl

@[simp] theorem Section.demands_stopWaited (m : Machine) (id ms : Nat) (turn : Turn)
    (forced : Option Bool) : Section.demands id ⟨m, .stopWaited id ms turn forced⟩ = [] := by
  refine demands_eq (l := []) rfl ?_
  simp only [Instr.exec]
  split <;> rfl

@[simp] theorem Section.demands_stopCheck (m : Machine) (id ms : Nat) (turn : Turn) :
    Section.demands id ⟨m, .stopCheck id ms turn⟩ = [] := by
  refine demands_eq (l := []) rfl ?_
  simp only [Instr.exec, Instr.leads]
  split <;> rfl

@[simp] theorem Section.demands_stopAbort (m : Machine) (id : Nat) (turn : Turn) :
    Section.demands id ⟨m, .stopAbort id turn⟩ =
      if (m.get? id).all Instance.selfDeleting then [] else [.abort turn.job] := by
  cases hi : m.get? id with
  | none => exact demands_eq (l := []) rfl (by simp [Instr.exec, Instr.about, Instr.plain, hi])
  | some i =>
    obtain ⟨l, hl, asked⟩ := m.trace_forceAbort i turn
    rw [demands_eq (l := l) rfl (by simpa only [Instr.exec, Instr.about, Instr.plain, hi] using hl),
      asked, Option.all_some]
    split <;> rfl

theorem Section.flatMap_demands (id : Nat) (l : List Section) :
    l.flatMap (Section.demands id) =
      (l.filter (Section.awaits id)).flatMap (Section.demands id) := by
  induction l with
  | nil => rfl
  | cons s l ih =>
    rw [List.flatMap_cons, ih]
    cases hs : s.awaits id with
    | true => rw [List.filter_cons_of_pos hs, List.flatMap_cons]
    | false =>
      rw [List.filter_cons_of_neg (by simp [hs]), Section.demands_eq_nil hs, List.nil_append]

/-- How far a stop has got that has a turn to wait for: what it has done since it began, and what
it is to do next of that kind. -/
inductive Climb (id ms : Nat) (turn : Turn) : List Section → List Instr → Prop where
  | begun : Climb id ms turn [] [.stopWait id ms turn]
  | next {d : List Section} {m : Machine} {a b : Instr} : Climb id ms turn d [a] →
      a.StopsOn m b → Climb id ms turn (d ++ [⟨m, a⟩]) [b]
  | past {d : List Section} {m : Machine} {a : Instr} : Climb id ms turn d [a] →
      Climb id ms turn (d ++ [⟨m, a⟩]) []

namespace Climb

variable {id ms : Nat} {turn : Turn} {d : List Section} {b : Instr} {p : List Instr}

/-- What has been done when a section of the stop is due. -/
theorem due (C : Climb id ms turn d [b]) :
    (d = [] ∧ b = .stopWait id ms turn) ∨
    (∃ n₁ forced, d = [⟨n₁, .stopWait id ms turn⟩] ∧ b = .stopWaited id ms turn forced) ∨
    (∃ n₁ n₂ forced, d = [⟨n₁, .stopWait id ms turn⟩, ⟨n₂, .stopWaited id ms turn forced⟩] ∧
      forced.getD (n₂.finished turn.job) = false ∧ b = .stopCheck id ms turn) ∨
    ∃ n₁ n₂ n₃ forced s, d = [⟨n₁, .stopWait id ms turn⟩,
        ⟨n₂, .stopWaited id ms turn forced⟩, ⟨n₃, .stopCheck id ms turn⟩] ∧
      forced.getD (n₂.finished turn.job) = false ∧
      n₃.core.slots[id]? = some s ∧ s.owns turn.ticket = true ∧ b = .stopAbort id turn := by
  generalize hp : [b] = p at C
  induction C generalizing b with
  | begun =>
    obtain rfl := List.singleton_inj.mp hp
    exact .inl ⟨rfl, rfl⟩
  | @next d m a b' C leads ih =>
    obtain rfl := List.singleton_inj.mp hp
    rcases ih rfl with ⟨rfl, rfl⟩ | ⟨n₁, f, rfl, rfl⟩ | ⟨n₁, n₂, f, rfl, hf, rfl⟩ |
      ⟨n₁, n₂, n₃, f, s, rfl, hf, hs, ho, rfl⟩
    · cases leads with
      | waited => exact .inr (.inl ⟨m, _, rfl, rfl⟩)
    · cases leads with
      | overdue hf => exact .inr (.inr (.inl ⟨n₁, m, f, rfl, hf, rfl⟩))
    · cases leads with
      | forces hs ho => exact .inr (.inr (.inr ⟨n₁, n₂, m, f, _, rfl, hf, hs, ho, rfl⟩))
    · cases leads
  | past => cases hp

theorem one (C : Climb id ms turn d p) : p = [] ∨ ∃ b, p = [b] := by
  cases C with
  | past => exact .inl rfl
  | _ => exact .inr ⟨_, rfl⟩

/-- A stop waits once, and if it has anything aborted then the turn that it has waited for in vain,
that was outstanding afterwards, and whose script is not deleting its own entity. -/
theorem demands (C : Climb id ms turn d p) :
    d.flatMap (Section.demands id) = [] ∨
    d.flatMap (Section.demands id) = [.wait turn.job ms] ∨
    d.flatMap (Section.demands id) = [.wait turn.job ms, .abort turn.job] ∧
      ∃ n₁ n₂ n₃ n₄ forced s i, d = [⟨n₁, .stopWait id ms turn⟩,
          ⟨n₂, .stopWaited id ms turn forced⟩, ⟨n₃, .stopCheck id ms turn⟩,
          ⟨n₄, .stopAbort id turn⟩] ∧
        forced.getD (n₂.finished turn.job) = false ∧
        n₃.core.slots[id]? = some s ∧ s.owns turn.ticket = true ∧
        n₄.get? id = some i ∧ i.selfDeleting = false := by
  have last : d = [] ∨ ∃ d' m a, d = d' ++ [⟨m, a⟩] ∧ Climb id ms turn d' [a] := by
    cases C with
    | begun => exact .inl rfl
    | next C _ => exact .inr ⟨_, _, _, rfl, C⟩
    | past C => exact .inr ⟨_, _, _, rfl, C⟩
  rcases last with rfl | ⟨d, m, a, rfl, earlier⟩
  · exact .inl rfl
  · rcases earlier.due with ⟨rfl, rfl⟩ | ⟨n₁, f, rfl, rfl⟩ | ⟨n₁, n₂, f, rfl, hf, rfl⟩ |
      ⟨n₁, n₂, n₃, f, s, rfl, hf, hs, ho, rfl⟩
    · exact .inr (.inl (by simp))
    · exact .inr (.inl (by simp))
    · exact .inr (.inl (by simp))
    · right
      cases hi : m.get? id with
      | none => exact .inl (by simp [hi])
      | some i =>
        cases flag : i.selfDeleting with
        | true => exact .inl (by simp [hi, flag])
        | false =>
          exact .inr ⟨by simp [hi, flag],
            n₁, n₂, n₃, m, f, s, i, rfl, hf, hs, ho, hi, flag⟩

/-- What the stops of an instance ask of the pool in the course of some sections, if they are those
of one stop. -/
theorem asked {l : List Section} (C : Climb id ms turn (l.filter (Section.awaits id)) p) :
    l.flatMap (Section.demands id) = [] ∨
    l.flatMap (Section.demands id) = [.wait turn.job ms] ∨
    l.flatMap (Section.demands id) = [.wait turn.job ms, .abort turn.job] ∧
      ∃ n₁ n₂ n₃ n₄ forced i₃ i₄, [⟨n₁, .stopWait id ms turn⟩,
          ⟨n₂, .stopWaited id ms turn forced⟩, ⟨n₃, .stopCheck id ms turn⟩,
          ⟨n₄, .stopAbort id turn⟩].Sublist l ∧
        forced.getD (n₂.finished turn.job) = false ∧
        n₃.get? id = some i₃ ∧ i₃.owns turn.ticket = true ∧
        n₄.get? id = some i₄ ∧ i₄.selfDeleting = false := by
  rw [Section.flatMap_demands]
  refine C.demands.imp_right (.imp_right (.imp_right ?_))
  rintro ⟨n₁, n₂, n₃, n₄, forced, s, i₄, hd, failed, hs, owns, hi₄, flag⟩
  obtain ⟨i₃, hi₃, rfl⟩ := Machine.exists_get? hs
  exact ⟨n₁, n₂, n₃, n₄, forced, i₃, i₄, hd ▸ List.filter_sublist, failed, hi₃, owns, hi₄, flag⟩

end Climb

/-! ## Who waits -/

theorem Instr.StopsOn.awaits {m : Machine} {a b : Instr} {id : Nat} {i : Instance}
    (leads : a.StopsOn m b) (hb : b.awaits? = some id) (hi : m.get? id = some i)
    (halted : i.slot.running = false) : a.awaits? = some id := by
  cases leads with
  | waits hs hr =>
    obtain rfl := Option.some.inj hb
    obtain rfl := Option.some.inj ((Machine.slot_of_get? hi).symm.trans hs)
    cases halted.symm.trans hr
  | _ => exact hb

/-- The sections of stops that wait for a turn of the instance, or are about to force it to end. -/
def System.awaiting (S : System) (id : Nat) : List Instr :=
  S.pending.filter fun b => b.awaits? == some id

theorem Effect.awaits_filter {m : Machine} {a : Instr} {c : Core} {next : List Instr}
    (e : Effect m a c next) (id : Nat) : next.filter (fun b => b.awaits? == some id) = [] ∨
      ∃ b, next.filter (fun b => b.awaits? == some id) = [b] ∧ a.StopsOn m b ∧
        b.awaits? = some id := by
  have among : next.filter (fun b => b.awaits? == some id) =
      (next.filter (·.awaits?.isSome)).filter (fun b => b.awaits? == some id) := by
    rw [List.filter_filter]
    refine List.filter_congr fun b _ => ?_
    cases b.awaits? <;> simp
  rw [among]
  rcases e.awaits_next with none | ⟨b, one, leads⟩
  · exact .inl (by rw [none]; rfl)
  · rw [one]
    by_cases hb : b.awaits? = some id
    · exact .inr ⟨b, by simp [hb], leads, hb⟩
    · exact .inl (by simp [hb])

namespace System

section

variable {S T : System} {a : Instr} {rest : List Instr} {reply : Reply} {others : List Thread}
  {h : List Section} {id ms : Nat} {i : Instance}

theorem Moves.awaiting_before (M : Moves S a rest reply others T) (id : Nat) :
    (S.awaiting id).Perm ((a :: elsewhere rest others).filter fun b => b.awaits? == some id) :=
  M.before.filter _

theorem Moves.awaiting_after (M : Moves S a rest reply others T) (id : Nat) :
    (T.awaiting id).Perm
      ((a.exec S.machine reply).next.filter (fun b => b.awaits? == some id) ++
        (elsewhere rest others).filter fun b => b.awaits? == some id) :=
  List.filter_append .. ▸ M.after.filter _

/-- While an instance does not run, no stop comes to wait for it, and those that do go on one by
one. -/
theorem Moves.awaiting (M : Moves S a rest reply others T) (hi : S.machine.get? id = some i)
    (halted : i.slot.running = false) :
    a.awaits? ≠ some id ∧ (T.awaiting id).Perm (S.awaiting id) ∨
    a.awaits? = some id ∧ ∃ p, (S.awaiting id).Perm (a :: p) ∧
      ((T.awaiting id).Perm p ∨ ∃ b, a.StopsOn S.machine b ∧ (T.awaiting id).Perm (b :: p)) := by
  have before := M.awaiting_before id
  have after := M.awaiting_after id
  have next := (effect_exec S.machine reply a).awaits_filter id
  by_cases ha : a.awaits? = some id
  · rw [List.filter_cons_of_pos (by simp [ha])] at before
    refine .inr ⟨ha, _, before, ?_⟩
    rcases next with none | ⟨b, one, leads, -⟩
    · exact .inl (by rwa [none] at after)
    · exact .inr ⟨b, leads, by rwa [one] at after⟩
  · rw [List.filter_cons_of_neg (by simp [ha])] at before
    refine .inl ⟨ha, ?_⟩
    rcases next with none | ⟨b, -, leads, hb⟩
    · rw [none] at after
      exact after.trans before.symm
    · exact absurd (leads.awaits hb hi halted) ha

/-- Where no stop of the instance is under way, none waits for it. -/
theorem Life.unawaited (H : Life h S)
    (alone : ∀ b ∈ S.pending, ∀ turn, b.stops? ≠ some (id, turn)) : S.awaiting id = [] := by
  refine List.filter_eq_nil_iff.mpr fun b hb ha => ?_
  rw [beq_iff_eq] at ha
  cases b with
  | stopWait k ms turn | stopWaited k ms turn forced | stopCheck k ms turn =>
    obtain rfl := Option.some.inj ha
    exact alone _ hb turn rfl
  | stopAbort k turn =>
    obtain rfl := Option.some.inj ha
    obtain ⟨t, ht, hb⟩ := mem_pending.mp hb
    obtain ⟨later, within, -, ends⟩ := (H.forced.agendas t ht).of_mem hb
    exact alone _ (mem_pending.mpr ⟨t, ht, within _ ends⟩) turn rfl
  | _ => cases ha

/-- A stop that has begun waits if it has found the instance running, and a turn of it outstanding;
or nobody does. -/
theorem Moves.begun (M : Moves S (.stop id ms) rest reply others T)
    (hi : S.machine.get? id = some i) (none : S.awaiting id = []) : T.awaiting id = [] ∨
      ∃ turn, i.slot.running = true ∧ i.slot.current = some turn ∧
        T.awaiting id = [.stopWait id ms turn] := by
  have before := M.awaiting_before id
  have after := M.awaiting_after id
  rw [none, List.filter_cons_of_neg (by simp [Instr.awaits?])] at before
  rw [before.symm.eq_nil, List.append_nil] at after
  rcases (effect_exec S.machine reply (.stop id ms)).awaits_filter id with none | ⟨b, one, leads, -⟩
  · exact .inl (none ▸ after).eq_nil
  · cases leads with
    | waits hs hr hc =>
      obtain rfl := Option.some.inj ((Machine.slot_of_get? hi).symm.trans hs)
      exact .inr ⟨_, hr, hc, List.perm_singleton.mp (one ▸ after)⟩

end

end System

end ScriptHost
