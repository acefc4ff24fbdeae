import ScriptHost.Proofs.Engine.Draining
import ScriptHost.Proofs.Engine.Interrupt
import ScriptHost.Proofs.Engine.Locking
import ScriptHost.Proofs.Engine.Standing
import ScriptHost.Proofs.Model.Queue

/-!
# Instances between turns

What holds of every instance at any time (`Instance.Sound`), and of what
handlers leave to be seen (`Life.live_eq_vars`). So an instance that executes
nothing and is not being stopped is free (`Life.free`).
-/

namespace ScriptHost

/-! ## At any time -/

/-- What is true of an instance whatever happens to it. -/
structure Instance.Sound (i : Instance) : Prop where
  initial : i.initialVars = i.program.initial
  capacity : i.slot.queue.capacity = i.limits.queueCapacity
  queue : i.slot.queue.Lawful
  preview : ∀ e, i.pendingEdit = some e → i.vars = i.preview e

theorem Instance.sound_create (q : LoadRequest) (p : Program) (b : Limits)
    (caps : List (CapabilityKind × Capability)) : (Instance.create q p b caps).Sound :=
  ⟨rfl, rfl, Queue.lawful_empty _, nofun⟩

/-- What no section changes of an instance. -/
theorem Instr.fixed_alter (a : Instr) (id : Nat) (i : Instance) :
    (a.alter id i).identity = i.identity ∧ (a.alter id i).limits = i.limits ∧
      (a.alter id i).program = i.program ∧ (a.alter id i).initialVars = i.initialVars := by
  have A := a.alteration id i
  generalize a.alter id i = j at A ⊢
  cases A with
  | edit e =>
    unfold Instance.edit
    split <;> exact ⟨rfl, rfl, rfl, rfl⟩
  | _ => exact ⟨rfl, rfl, rfl, rfl⟩

/-- What others see of an edit that is kept back is what they were shown at once. -/
theorem Instr.preview_alter (a : Instr) (id : Nat) {i : Instance}
    (h : ∀ e, i.pendingEdit = some e → i.vars = i.preview e) :
    ∀ e, (a.alter id i).pendingEdit = some e → (a.alter id i).vars = (a.alter id i).preview e := by
  have A := a.alteration id i
  generalize a.alter id i = j at A ⊢
  cases A with
  | edit e =>
    intro e' he
    unfold Instance.edit at he ⊢
    split at he
    · next hh =>
      cases he
      simp only [hh, if_true]
      cases e <;> rfl
    · cases he
  | settle => exact nofun
  | _ => exact h

/-- A queue changes by pushing, clearing and popping only. -/
theorem Effect.queue {m : Machine} {a : Instr} {c : Core} {next : List Instr} {id : Nat}
    {s s' : Slot} {Q : Queue → Prop} (e : Effect m a c next) (hs : m.core.slots[id]? = some s)
    (hs' : c.slots[id]? = some s') (push : ∀ q e, Q q → Q (q.push e).1)
    (clear : ∀ q, Q q → Q q.clear) (pop : ∀ q e rest, q.pop? = some (e, rest) → Q q → Q rest)
    (h : Q s.queue) : Q s'.queue := by
  have same : c.slots = m.core.slots → Q s'.queue := fun hc => by
    rw [hc, hs] at hs'
    cases hs'
    exact h
  have revised : ∀ {k : Nat} {s₀ : Slot} {r : Revision}, m.core.slots[k]? = some s₀ →
      c.slots = (m.core.revise k r).slots → (Q s₀.queue → Q r.slot.queue) → Q s'.queue := by
    intro k s₀ r hk hc own
    rw [hc] at hs'
    rcases Core.queue_of_revise hk hs hs' with ⟨rfl, rfl, hq⟩ | ⟨-, rfl⟩
    · exact hq ▸ own h
    · exact h
  have pushAll : ∀ (l : List Event) {q : Queue}, Q q → Q (q.pushAll l) := by
    intro l
    induction l with
    | nil => exact fun hq => hq
    | cons e l ih => exact fun hq => ih (push _ e hq)
  cases e with
  | start hk => exact revised hk rfl fun h => by rwa [Slot.queue_start]
  | post hk =>
    refine revised hk rfl fun h => ?_
    rw [Slot.queue_post]
    split
    · exact push _ _ h
    · exact h
  | clear hk => exact revised hk rfl (clear _)
  | refill hk => exact revised hk rfl (pushAll _)
  | halt hk => exact revised hk rfl fun h => h
  | @cancel _ _ s₀ _ hk => exact revised hk (r := ⟨s₀.halt true, false⟩) rfl fun h => h
  | await hk => exact revised hk rfl fun h => h
  | giveUp hk => exact revised hk rfl fun h => by rwa [Slot.queue_giveUp]
  | handOn hk => exact revised hk rfl fun h => by rwa [Slot.queue_handOn]
  | idle hk => exact revised hk rfl fun h => h
  | takeSwitch hk _ hp => exact revised hk rfl (pop _ _ _ hp)
  | take hk _ hp => exact revised hk rfl (pop _ _ _ hp)
  | create =>
    have := (List.getElem?_eq_some_iff.mp hs).1
    rw [Core.slots_create, if_neg (by omega), hs] at hs'
    cases hs'
    exact h
  | _ => exact same rfl

namespace System

section

variable {S T : System} {h : List Section} {a : Instr} {rest : List Instr} {reply : Reply}
  {others : List Thread} {id : Nat} {i : Instance}

/-- What holds of a new instance, and of every instance that a section makes of one, holds of all
instances. It may depend on what is pending, if it is not lost when more becomes pending. -/
theorem Life.instances {P : List Instr → Nat → Instance → Prop}
    (more : ∀ l l' id i, P l id i → P (l ++ l') id i)
    (new : ∀ l id q p b caps, P l id (.create q p b caps))
    (move : ∀ S T a rest reply others, Moves S a rest reply others T → ∀ id i s p,
      S.machine.get? id = some i → T.machine.core.slots[id]? = some s → P S.pending id i →
      P T.pending id { a.alter id i with slot := s, startParam := p })
    (H : Life h S) : S.machine.get? id = some i → P S.pending id i := by
  revert id i
  refine H.induct_moves (P := fun _ S => ∀ {id i}, S.machine.get? id = some i →
    P S.pending id i) ?_ ?_ ?_
  · intro m hm id i hi
    simp [Machine.get?, hm.instances] at hi
  · intro h S T J ih id i hi
    obtain ⟨l, e, -⟩ := J.pending
    rw [e]
    exact more _ _ _ _ (ih ((J.get? id).symm.trans hi))
  · intro h S T a rest reply others _ M ih id i hi
    cases hb : S.machine.get? id with
    | none =>
      rw [M.machine] at hi
      obtain ⟨l, caps, -, rfl⟩ := Machine.get?_new reply hb hi
      exact new _ _ _ _ _ _
    | some j =>
      obtain ⟨s, p, hg⟩ := M.get?_after hb
      obtain rfl : i = { a.alter id j with slot := s, startParam := p } :=
        Option.some.inj (hi.symm.trans hg)
      exact move _ _ _ _ _ _ M id j s p hb (Machine.slot_of_get? hg) (ih hb)

theorem Life.sound (H : Life h S) (hi : S.machine.get? id = some i) : i.Sound := by
  refine H.instances (P := fun _ _ i => i.Sound) (fun _ _ _ _ h => h)
    (fun _ _ => Instance.sound_create) ?_ hi
  intro S T a rest reply others M id i s p hi hs h
  obtain ⟨capacity, lawful⟩ : s.queue.capacity = i.limits.queueCapacity ∧ s.queue.Lawful :=
    M.effect.queue (Q := fun q => q.capacity = i.limits.queueCapacity ∧ q.Lawful)
      (Machine.slot_of_get? hi) hs
      (fun q e hq => ⟨Queue.capacity_push.trans hq.1, hq.2.push⟩)
      (fun q hq => ⟨hq.1, Queue.lawful_empty _⟩)
      (fun q e rest hp hq => ⟨(Queue.capacity_pop? hp).trans hq.1, hq.2.pop hp⟩)
      ⟨h.capacity, h.queue⟩
  obtain ⟨-, limits, program, initial⟩ := a.fixed_alter id i
  exact ⟨initial.trans (h.initial.trans (congrArg Program.initial program.symm)),
    capacity.trans (congrArg Limits.queueCapacity limits.symm), lawful,
    Instr.preview_alter a id h.preview⟩

/-! ## Between turns -/

/-- The instance executes no handler, no stop of it is under way, and it is not deleting itself. -/
structure Rests (S : System) (id : Nat) (i : Instance) : Prop where
  here : S.machine.get? id = some i
  unheld : i.held = false
  idle : i.currentEvent = none
  unstopped : ∀ a ∈ S.pending, ∀ turn, a.stops? ≠ some (id, turn)
  stays : i.selfDeleting = false

/-- As long as no edit is kept back, others see of the variables what the script has, except for
what a handler's run conceals. -/
theorem Life.live_eq_vars (H : Life h S) (hi : S.machine.get? id = some i)
    (none : i.pendingEdit = none) (unheld : i.held = false) : i.live = i.vars := by
  have shown : (i.pendingEdit = .none → i.live = i.vars) ∨
      ∃ a ∈ S.pending, a.conceals? = some id := by
    refine H.instances (P := fun l id i => (i.pendingEdit = .none → i.live = i.vars) ∨
      ∃ a ∈ l, a.conceals? = some id) ?_ (fun _ _ _ _ _ _ => .inl fun _ => rfl) ?_ hi
    · rintro l l' id i (h | ⟨a, ha, hc⟩)
      · exact .inl h
      · exact .inr ⟨a, List.mem_append_left _ ha, hc⟩
    · intro S T a rest reply others M id i s p hi hs h
      -- A handler goes on concealing until it shows.
      have onward : ∀ v l, a = .act v l → v.id = id → ∃ a ∈ T.pending, a.conceals? = some id := by
        rintro v l rfl rfl
        rcases Machine.next_handles S.machine reply (.act v l) with
          ⟨-, hn⟩ | ⟨w, hw, -⟩ | ⟨w, hw, hd⟩
        · cases hi.symm.trans (hn v (.inr ⟨l, rfl⟩))
        · cases hw
        · obtain rfl : v = w := by
            rcases hw with hw | ⟨l, hw⟩ <;> cases hw
            rfl
          obtain ⟨b, hb, hc⟩ := hd.conceals
          exact ⟨b, M.mem_after.mpr (.inl hb), hc⟩
      by_cases ha : a = .settle id
      · subst ha
        left
        simp only [Instr.alter, Instr.change?, if_true]
        exact fun _ => rfl
      · have kept : (i.pendingEdit = .none → i.live = i.vars) ∨
            ∃ a ∈ T.pending, a.conceals? = some id := by
          refine h.imp_right ?_
          rintro ⟨b, hb, hc⟩
          rcases M.mem_before.mp hb with rfl | hb
          · cases b with
            | act v l => exact onward v l rfl (by cases hc; rfl)
            | settle => cases hc; exact absurd rfl ha
            | _ => cases hc
          · exact ⟨b, M.mem_after.mpr (.inr hb), hc⟩
        have A := a.alteration id i
        generalize a.alter id i = j at A
        cases A with
        | edit e =>
          left
          unfold Instance.edit
          split
          · intro h
            cases h
          · exact fun _ => rfl
        | settle => exact .inl fun _ => rfl
        | write v x l hv => exact .inr (onward v _ rfl hv)
        | _ => exact kept
  refine shown.resolve_right ?_ none
  rintro ⟨a, ha, hc⟩
  exact H.not_concealed hi (by simp [Instance.unheld_iff.mp unheld]) a ha hc

/-- An instance that rests is free, if its program takes its variables as they are. -/
theorem Life.free (H : Life h S) (honest : ∀ s ∈ h, s.honest = true)
    (unhooked : S.machine.hooks = ([], [], [])) (R : S.Rests id i)
    (retains : i.program.retain i.vars = i.vars) : S.machine.Free id i := by
  have hs := Machine.slot_of_get? R.here
  refine ⟨⟨R.here, unhooked, H.coherent.booked.busy id _ hs, fun hc => ?_, fun turn hc => ?_⟩,
    R.unheld, ?_⟩
  · -- A stopped instance that has a turn outstanding is waited for by a stop.
    obtain ⟨turn, hc⟩ := Option.ne_none_iff_exists'.mp hc
    refine Classical.byContradiction fun hr => ?_
    obtain ⟨a, ha, hstop⟩ := H.draining honest id turn ⟨_, hs, by simpa using hr, hc⟩
    exact R.unstopped a ha turn hstop
  · exact H.not_interrupted hs hc fun ha => R.unstopped _ ha turn rfl
  · have sound := H.sound R.here
    cases hp : i.pendingEdit with
    | none =>
      simp only [Instance.settle, hp]
      exact H.live_eq_vars R.here hp R.unheld
    | some e =>
      have shown := sound.preview e hp
      simp only [Instance.settle, hp]
      cases e with
      | setVars vars =>
        have : i.vars = vars := shown
        simp only [Instance.apply, ← this, retains]
      | resetVars => exact sound.initial.symm.trans shown.symm

end

end System

end ScriptHost
