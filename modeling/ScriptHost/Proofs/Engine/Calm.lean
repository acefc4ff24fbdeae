import Mathlib.Data.List.Nodup
import ScriptHost.Proofs.Engine.Halting
import ScriptHost.Proofs.Engine.Switching

/-!
# While nobody calls operations

Turns go on without operations being called (`Instr.calm_next`). As long as
nobody calls one but to change the surroundings (`Op.ambient`), an instance that
has been stopped stays as it is (`Shut.step`), one that has not runs on, and the
same instances are registered.
-/

namespace ScriptHost

/-- Operations that change the surroundings only: entities come and go, collaborators come to
misbehave or cease to, plugins and the store come to hold something else, stuck handlers go on. -/
def Op.ambient : Op → Bool
  | .entity _ | .noEntity _ | .switch _ _ | .setExport _ _ | .put _ _ _ | .release => true
  | _ => false

namespace Instr

/-- Sections of turns, and operations that have not begun. -/
def calm : Instr → Bool
  | .op _ | .noteBegin _ | .noteReply | .run _ _ | .takeTurn _ _ _ | .readDetected _
  | .lockScript _ | .settle _ | .enter _ | .act _ _ | .parked _ _ _ | .unlock _
  | .applyRequests _ _ | .conclude _ _ | .selfDelete _ | .deleted _ | .showFault _ _
  | .delivered _ _ | .record _ _ | .finishTurn _ _ | .jobDone _ | .post _ _ | .removeState _
  | .edit _ _ | .clearPermissions _ | .removePlugins _ | .replaceState _ _ | .publishMask _
  | .letGo _ _ | .stateEntryUnlessCurrent _ | .count _ => true
  | _ => false

/-- Sections of a stop that has a turn to wait for. -/
def awaiting : Instr → Bool
  | .stopWait _ _ _ | .stopWaited _ _ _ none | .stopCheck _ _ _ | .stopAbort _ _ | .stopEnd _ _ =>
    true
  | _ => false

/-- Sections of a shutdown. -/
def closing : Instr → Bool
  | .stop _ _ | .save _ _ | .saved _ _ _ | .shutdownEach _ _ => true
  | a => a.awaiting

/-- Sections that start and register nothing, fill and clear no queue, and do not lie about a
wait. -/
def gentle : Instr → Bool
  | .op o => o.ambient
  | .start _ | .clearQueue _ | .refill _ _ | .recoverSize _ _ | .recoverRead _ _ | .load _
  | .register _ | .stopWaited _ _ _ (some _) => false
  | _ => true

variable {a : Instr}

/-- An operation on the surroundings leads to nothing, and nobody is asked to call back. -/
theorem ambient_exec {o : Op} (h : o.ambient = true) (m : Machine) (r : Reply) :
    ((Instr.op o).exec m r).next = [] ∧ ((Instr.op o).exec m r).machine.hooks = m.hooks := by
  cases o <;> first | exact ⟨rfl, rfl⟩ | cases h

theorem gentle_of_calm (h : a.calm = true) (op : ∀ o, a = .op o → o.ambient = true) :
    a.gentle = true := by
  cases a with
  | op o => exact op o rfl
  | stopWaited => cases h
  | _ => first | rfl | cases h

theorem gentle_of_closing (h : a.closing = true) : a.gentle = true := by
  cases a with
  | stopWaited id ms turn forced => cases forced <;> first | rfl | cases h
  | _ => first | rfl | cases h

theorem closing_of_awaiting (h : a.awaiting = true) : a.closing = true := by
  cases a <;> first | exact h | cases h

theorem ne_start_of_gentle {id : Nat} (h : a.gentle = true) : a ≠ .start id := by
  rintro rfl
  cases h

theorem stops?_of_calm (h : a.calm = true) : a.stops? = none := by
  cases a <;> first | rfl | cases h

theorem opens?_of_gentle (h : a.gentle = true) : a.opens? = none := by
  cases a <;> first | rfl | cases h

theorem calm_nested {ops : List Op} : ∀ b ∈ nested ops, b.calm = true :=
  forall_nested (P := (·.calm = true)) (fun _ => rfl) (fun _ => rfl) rfl ops

theorem calm_of_belongs {v : Invocation} (h : a.belongs v) : a.calm = true := by
  cases a <;> first | rfl | exact h.elim

theorem calm_of_carriesOut {id : Nat} (h : a.carriesOut id = true) : a.calm = true := by
  cases a <;> first | rfl | cases h

/-- What is done for turns leads to what is done for turns, and to operations that are called. -/
theorem calm_next (m : Machine) (r : Reply) (h : a.calm = true)
    (op : ∀ o, a = .op o → o.ambient = true) :
    ∀ b ∈ (a.exec m r).next, b.calm = true := by
  have turn : ∀ v, a.belongs v → ∀ b ∈ (a.exec m r).next, b.calm = true := by
    intro v hv b hb
    obtain ⟨ops, asked, own, e, hasked, hown, -⟩ := m.next_of_belongs r hv
    rw [e, List.mem_append, List.mem_append] at hb
    rcases hb with (hb | hb) | hb
    · exact calm_nested b hb
    · exact calm_of_carriesOut (hasked b hb)
    · exact calm_of_belongs (hown b hb)
  have carries : ∀ id, a.carriesOut id = true → ∀ b ∈ (a.exec m r).next, b.calm = true :=
    fun id ha b hb => calm_of_carriesOut (m.next_carriesOut r ha b hb)
  cases a with
  | op o =>
    rw [(ambient_exec (op o rfl) m r).1]
    exact List.forall_mem_nil _
  | noteBegin | noteReply | jobDone => exact List.forall_mem_nil _
  | finishTurn => exact forall_about
  | run turns ran =>
    intro b hb
    cases m.leadsTo r _ b hb <;> rfl
  | takeTurn id ticket n =>
    rcases m.next_takeTurn r id ticket n with e | ⟨i, e, q, -, -, -, ⟨-, asked, hasked, h⟩ | ⟨-, h⟩⟩
    · rw [e]
      exact List.forall_mem_nil _
    · rw [h]
      exact List.forall_mem_append.mpr
        ⟨fun b hb => calm_of_carriesOut (hasked b hb), by simp [calm]⟩
    · simp [h, calm]
  | readDetected v | lockScript v | enter v | act v | applyRequests v | conclude v | showFault v
  | record v => exact turn v (.refl v)
  | settle id | unlock id | selfDelete id => exact turn { (default : Invocation) with id := id } rfl
  | parked | deleted | delivered => exact turn default trivial
  | post id | removeState id | edit id | clearPermissions id | removePlugins id | replaceState id
  | publishMask id | letGo id | stateEntryUnlessCurrent id =>
    exact carries id (beq_self_eq_true id)
  | count => exact carries 0 rfl
  | _ => cases h

theorem effort_of_awaiting (h : a.awaiting = true) : 0 < a.effort := by
  cases a <;> first | exact Nat.succ_pos _ | cases h

/-- Nobody comes to be called back. -/
theorem hooks_next {m : Machine} (quiet : m.hooks = ([], [], [])) (r : Reply)
    (op : ∀ o, a = .op o → o.ambient = true) : (a.exec m r).machine.hooks = ([], [], []) := by
  by_cases h : ∃ o, a = .op o
  · obtain ⟨o, rfl⟩ := h
    exact (ambient_exec (op o rfl) m r).2.trans quiet
  · exact Machine.hooks_exec quiet r fun o e => h ⟨o, e⟩

/-- A stop that is waiting goes on doing so, if nobody is called back. -/
theorem awaiting_next {m : Machine} (quiet : m.hooks = ([], [], [])) (r : Reply)
    (h : a.awaiting = true) : ∀ b ∈ (a.exec m r).next, b.awaiting = true := by
  cases a with
  | stopWait id ms turn =>
    have none : (m.note (.wait turn.job ms)).waitHooks = [] := congrArg Prod.fst quiet
    simp [exec, none, awaiting]
  | stopWaited id ms turn forced =>
    simp only [exec]
    split <;> simp [plain, awaiting]
  | stopCheck id ms turn =>
    refine forall_leads fun i => ?_
    simp only
    split <;> simp [awaiting]
  | stopAbort | stopEnd => exact forall_about
  | _ => cases h

end Instr

theorem Section.discarded_of_gentle {m : Machine} {a : Instr} {id : Nat} (h : a.gentle = true) :
    Section.discarded id ⟨m, a⟩ = [] := by
  cases a <;> first | rfl | cases h

theorem Section.honest_of_gentle {m : Machine} {a : Instr} (h : a.gentle = true) :
    Section.honest ⟨m, a⟩ = true := by
  cases a with
  | stopWaited id ms turn forced =>
    rcases forced with - | forced
    · rfl
    · cases h
  | _ => rfl

/-- An instance is left running, or stopped, by all gentle sections but those that stop it. -/
theorem Effect.running_kept {m : Machine} {a : Instr} {c : Core} {next : List Instr} {id : Nat}
    {s s' : Slot} (e : Effect m a c next) (hs : m.core.slots[id]? = some s)
    (hs' : c.slots[id]? = some s') (gentle : a.gentle = true) (stop : ∀ ms, a ≠ .stop id ms) :
    s'.running = s.running := by
  by_cases undirected : a.directs id = false
  · obtain ⟨s'', h, running, -⟩ := e.slot_undirected hs undirected
    obtain rfl := Option.some.inj (hs'.symm.trans h)
    exact running
  · have directs : a.directs id = true := by simpa using undirected
    cases a with
    | stop k ms =>
      obtain rfl : k = id := by simpa [Instr.directs] using directs
      exact absurd rfl (stop ms)
    | post k ev =>
      obtain rfl : k = id := by simpa [Instr.directs] using directs
      cases e with
      | post hk =>
        obtain rfl := Option.some.inj (hk.symm.trans hs)
        rw [Core.slots_revise hk, if_pos rfl] at hs'
        obtain rfl := Option.some.inj hs'
        split <;> exact Slot.running_post
      | absent hsub hno =>
        cases hsub
        cases (Machine.slots_of_get?_none hno).symm.trans hs
      | silent h => cases h
      | fresh h => rcases h with h | h <;> cases h
    | start | clearQueue | refill => cases gentle
    | _ => cases directs

/-- No instance is registered twice. -/
theorem Core.Listed.ids_nodup {c : Core} (L : c.Listed) : (c.registered.map (·.2)).Nodup := by
  refine List.Nodup.map_on (fun p hp q hq e => ?_) (List.Nodup.of_map _ L.items)
  obtain ⟨item, id⟩ := p
  obtain ⟨other, id'⟩ := q
  obtain rfl : id = id' := e
  rw [L.item_unique hp hq]

namespace System

variable {S T U V W : System} {h g l : List Section} {a : Instr} {rest : List Instr}
  {reply : Reply} {others : List Thread} {id k : Nat} {i : Instance} {q : List Event}

theorem Life.listed (H : Life h S) : S.machine.core.Listed := by
  refine H.induct_steps (P := fun _ S => S.machine.core.Listed) ?_ ?_ ?_ ?_ ?_
  · intro m hm
    have none : m.core.registered = [] := hm.registered
    exact ⟨by simp [none], by simp [none]⟩
  · exact fun _ _ _ _ L => L
  · exact fun _ _ _ _ _ _ _ _ L => ⟨L.items, L.own⟩
  · exact fun _ _ _ _ L => ⟨L.items, L.own⟩
  · exact fun _ _ _ _ _ _ _ _ M L => M.effect.listed L

theorem Life.registered_known (H : Life h S) :
    ∀ id ∈ S.machine.registered.map (·.2), ∃ i, S.machine.get? id = some i := by
  intro id hid
  obtain ⟨p, hp, rfl⟩ := List.mem_map.mp hid
  obtain ⟨who, hw, -⟩ := H.listed.own p hp
  rw [Machine.identities_getElem?] at hw
  obtain ⟨i, hi, -⟩ := Option.map_eq_some_iff.mp hw
  exact ⟨i, hi⟩

/-- The same instances are registered. -/
theorem Step.registered_kept (s : V.Step g W) (gentle : ∀ s ∈ g, s.instr.gentle = true) :
    W.machine.registered.map (·.2) = V.machine.registered.map (·.2) := by
  revert gentle
  refine s.cases_on (P := fun V g W => (∀ s ∈ g, s.instr.gentle = true) →
    W.machine.registered.map (·.2) = V.machine.registered.map (·.2)) ?_ ?_ ?_ ?_
  · exact fun _ _ _ _ => rfl
  · exact fun _ _ _ _ _ _ _ => rfl
  · exact fun _ _ _ _ _ => rfl
  · intro V W a rest reply others M gentle
    have soft := gentle _ (List.mem_singleton_self _)
    rcases M.effect.registry with e | ⟨o, item, id, ms, rfl, -, -, stop⟩ | ⟨_, _, rfl, -⟩
    · exact congrArg (List.map (·.2)) e
    · rw [(Instr.ambient_exec soft _ _).1] at stop
      cases stop
    · cases soft

/-- An instance runs, or not, as before, unless it is stopped. -/
theorem Step.running_kept (s : V.Step g W) (gentle : ∀ s ∈ g, s.instr.gentle = true)
    (stop : ∀ s ∈ g, ∀ ms, s.instr ≠ .stop id ms) (hi : V.machine.get? id = some i) :
    ∃ j, W.machine.get? id = some j ∧ j.slot.running = i.slot.running := by
  rcases s.joins_or_moves with ⟨-, J⟩ | ⟨a, rest, reply, others, rfl, M⟩
  · exact ⟨i, (J.get? id).trans hi, rfl⟩
  · obtain ⟨s, p, hj⟩ := M.get?_after hi
    have here := List.mem_singleton_self (⟨V.machine, a⟩ : Section)
    exact ⟨_, hj, M.effect.running_kept (Machine.slot_of_get? hi) (Machine.slot_of_get? hj)
      (gentle _ here) (stop _ here)⟩

/-- An instance has been stopped, with these events queued. -/
structure Shut (id : Nat) (q : List Event) (V : System) : Prop where
  rests : Waiting id [] V
  queued : V.queued id = q

/-- It stays as it is. -/
theorem Shut.step (P : Shut id q V) (C : V.Coherent) (s : V.Step g W)
    (gentle : ∀ s ∈ g, s.instr.gentle = true) : Shut id q W := by
  refine ⟨P.rests.others C s fun x hx => Instr.ne_start_of_gentle (gentle x hx), ?_⟩
  · rcases s.joins_or_moves with ⟨-, J⟩ | ⟨a, rest, reply, others, rfl, M⟩
    · exact J.queued.trans P.queued
    · have soft := gentle _ (List.mem_singleton_self _)
      obtain ⟨i, hi, halted, idle⟩ := P.rests.over
      have refused : Section.accepted id ⟨V.machine, a⟩ = [] :=
        accepted_of_halted hi halted (Instr.opens?_of_gentle soft ▸ nofun)
      have untaken : Section.taken id ⟨V.machine, a⟩ = [] :=
        Section.taken_of_not_owned hi fun ticket n _ => by
          rw [Instance.owns, Slot.owns, idle]
      rcases M.carries C id with ⟨-, carried⟩ | ⟨all, empty, -⟩
      · rw [untaken, refused, List.append_nil] at carried
        exact carried.trans P.queued
      · rw [Section.discarded_of_gentle soft] at all
        exact empty.trans (all.trans P.queued)

end System

end ScriptHost
