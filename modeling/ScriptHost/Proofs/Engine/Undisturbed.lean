import ScriptHost.Proofs.Engine.Resting
import ScriptHost.Proofs.Engine.Surroundings
import ScriptHost.Proofs.Engine.Turning

/-!
# What lasts

What a section has made of an instance stays as it is, however many threads go
on, until some section is about it again. For the named state, the store and the
slot that is plain; variables and the event mask also come to be changed by what
was kept back while a handler had the script, and the slot by the turn that is
outstanding.
-/

namespace ScriptHost

namespace Instr

/-- Sections about the slot of an instance that belong to no turn and end none. -/
def directs (id : Nat) : Instr → Bool
  | .start k | .stop k _ | .post k _ | .clearQueue k | .refill k _ => k == id
  | _ => false

theorem state_alter {a : Instr} (id : Nat) (i : Instance)
    (h : ∀ state, a ≠ .replaceState id state) : (a.alter id i).state = i.state := by
  have A := a.alteration id i
  generalize a.alter id i = j at A ⊢
  cases A with
  | edit e =>
    unfold Instance.edit
    split <;> rfl
  | state s => exact absurd rfl (h s)
  | _ => rfl

theorem stale_alter {a : Instr} {id : Nat} {i : Instance} (h : i.maskStale = true) :
    a = .settle id ∨ (a.alter id i).maskStale = true := by
  have A := a.alteration id i
  generalize a.alter id i = j at A ⊢
  cases A with
  | edit e =>
    unfold Instance.edit
    split <;> exact .inr h
  | publish => exact .inr (by simp [Instance.publish, h])
  | settle => exact .inl rfl
  | _ => exact .inr h

/-- What is kept back is applied when the script is settled, and nothing is while nobody edits and
no mask is told. -/
theorem settled_alter {a : Instr} {id : Nat} {i : Instance} (unedited : ∀ e, a ≠ .edit id e)
    (untold : a ≠ .publishMask id) (h : i.pendingEdit = none ∧ i.maskStale = false) :
    (a.alter id i).pendingEdit = none ∧ (a.alter id i).maskStale = false := by
  have A := a.alteration id i
  generalize a.alter id i = j at A ⊢
  cases A with
  | edit e => exact absurd rfl (unedited e)
  | publish => exact absurd rfl untold
  | settle => exact ⟨rfl, rfl⟩
  | _ => exact h

end Instr

/-- The mask that the world is told in the name of the instance. -/
def Note.mask? (i : Instance) : Note → Option UInt64
  | .mask localId item x => if localId = i.localId ∧ item = i.item then some x else none
  | _ => none

/-- Sections that may tell the mask of the instance. -/
def Instr.masks (id : Nat) : Instr → Bool
  | .publishMask k | .settle k => k == id
  | _ => false

theorem Instr.masks_iff {a : Instr} {id : Nat} :
    a.masks id = true ↔ a = .publishMask id ∨ a = .settle id := by
  cases a <;> simp [masks]

namespace Section

/-- The mask that the section tells the world for the instance. -/
def mask? (id : Nat) (s : Section) : Option UInt64 :=
  if s.instr.masks id then (s.machine.get? id).bind fun i => s.notes.findSome? (Note.mask? i)
  else none

variable {m : Machine} {a : Instr} {id : Nat} {i : Instance} {x : UInt64}

/-- A mask is told at once if nobody has the script. -/
theorem mask?_publishMask (hi : m.get? id = some i) :
    mask? id ⟨m, .publishMask id⟩ = if i.held then none else some (i.program.mask i.state) := by
  have noted : notes ⟨m, .publishMask id⟩ = [if i.held then
      .log .debug "script busy, event mask update deferred"
      else .mask i.localId i.item (i.program.mask i.state)] := by
    refine notes_eq (l := [_]) ?_
    simp only [Instr.exec, Instr.leads, hi, Machine.publishMask]
    cases i.held <;> rfl
  rw [mask?, if_pos (by simp [Instr.masks]), noted, hi, Option.bind_some]
  cases i.held <;> simp [Note.mask?]

/-- What was kept back is told when the script is settled. -/
theorem mask?_settle (hi : m.get? id = some i) :
    mask? id ⟨m, .settle id⟩ = if i.maskStale then some (i.program.mask i.state) else none := by
  have noted : notes ⟨m, .settle id⟩ =
      if i.maskStale then [.mask i.localId i.item (i.program.mask i.state)] else [] := by
    cases stale : i.maskStale with
    | false => exact notes_eq (l := []) (by simp only [Instr.exec, Machine.settle, hi, stale]; rfl)
    | true => exact notes_eq (l := [_]) (by simp only [Instr.exec, Machine.settle, hi, stale]; rfl)
  rw [mask?, if_pos (by simp [Instr.masks]), noted, hi, Option.bind_some]
  cases i.maskStale <;> simp [Note.mask?]

theorem mask_eq (hi : m.get? id = some i) (h : mask? id ⟨m, a⟩ = some x) :
    x = i.program.mask i.state := by
  by_cases ha : a.masks id = true
  · rcases Instr.masks_iff.mp ha with rfl | rfl
    · rw [mask?_publishMask hi] at h
      split at h <;> cases h
      rfl
    · rw [mask?_settle hi] at h
      split at h <;> cases h
      rfl
  · cases (if_neg ha).symm.trans h

end Section

namespace Effect

variable {m : Machine} {a : Instr} {c : Core} {next : List Instr} {id : Nat} {s : Slot}

/-- A slot stays as it is, unless a section is about it, or its turn is taken, finished or given
up. -/
theorem slot_kept (e : Effect m a c next) (hs : m.core.slots[id]? = some s)
    (undirected : a.directs id = false) (apart : ∀ ticket, s.owns ticket = true →
      (∀ n, a ≠ .takeTurn id ticket n) ∧ ¬ a.Ends id ticket) : c.slots[id]? = some s := by
  have revised : ∀ {k : Nat} {s₀ : Slot} {r : Revision}, m.core.slots[k]? = some s₀ →
      c.slots = (m.core.revise k r).slots → (k = id → s₀ = s → r = ⟨s₀, false⟩) →
      c.slots[id]? = some s := by
    intro k s₀ r hk hc same
    rw [hc, Core.slots_revise hk]
    split
    · next he =>
      subst he
      obtain rfl := Option.some.inj (hk.symm.trans hs)
      rw [same rfl rfl]
      rfl
    · exact hs
  have directed : ∀ {k : Nat} {p : Prop}, a.directs id = (k == id) → k = id → p := fun h he => by
    rw [undirected, he, beq_self_eq_true] at h
    cases h
  cases e with
  | start hk => exact revised hk rfl (directed rfl)
  | post hk => exact revised hk rfl (directed rfl)
  | clear hk => exact revised hk rfl (directed rfl)
  | refill hk => exact revised hk rfl (directed rfl)
  | halt hk => exact revised hk rfl (directed rfl)
  | @cancel _ _ s₀ _ hk => exact revised (r := ⟨s₀.halt true, false⟩) hk rfl (directed rfl)
  | await hk => exact revised hk rfl (directed rfl)
  | @giveUp k turn s₀ hk =>
    refine revised hk rfl ?_
    rintro rfl rfl
    exact if_neg fun ho => (apart _ ho).2 (.inr ⟨turn, rfl, rfl⟩)
  | @handOn k ticket s₀ hk =>
    refine revised hk rfl ?_
    rintro rfl rfl
    exact if_neg fun ho => (apart _ ho).2 (.inl rfl)
  | @idle k ticket n s₀ hk ho =>
    refine revised hk rfl ?_
    rintro rfl rfl
    exact absurd rfl ((apart _ ho).1 n)
  | @takeSwitch k ticket n s₀ e q next hk ho =>
    refine revised hk rfl ?_
    rintro rfl rfl
    exact absurd rfl ((apart _ ho).1 n)
  | @take k ticket n s₀ e q hk ho =>
    refine revised hk rfl ?_
    rintro rfl rfl
    exact absurd rfl ((apart _ ho).1 n)
  | create =>
    have := (List.getElem?_eq_some_iff.mp hs).1
    rw [Core.slots_create, if_neg (by omega), hs]
  | _ => exact hs

/-- A turn whose event is queued alone takes it for its handler. -/
theorem taken_alone {ticket n : Nat} {e : Event}
    (E : Effect m (.takeTurn id ticket n) c next) (hs : m.core.slots[id]? = some s)
    (ho : s.owns ticket = true) (hq : s.queue.events = [e]) (he : e.isSetState = false) :
    ∃ q, c.slots[id]? = some { s with queue := q } ∧ q.events = [] ∧
      (ticket, e) ∈ ScriptHost.due id next := by
  have popped : ∀ {e' : Event} {q : Queue}, s.queue.pop? = some (e', q) →
      e' = e ∧ q.events = [] := fun hp => by
    have := (Queue.pop?_eq_some hp).symm.trans hq
    exact ⟨(List.cons.inj this).1, (List.cons.inj this).2⟩
  cases E with
  | silent h => cases h
  | absent hsub hno =>
    cases hsub
    cases (Machine.slots_of_get?_none hno).symm.trans hs
  | fresh h => rcases h with h | h <;> cases h
  | stale hk hno =>
    obtain rfl := Option.some.inj (hk.symm.trans hs)
    cases hno.symm.trans ho
  | idle hk _ hno =>
    obtain rfl := Option.some.inj (hk.symm.trans hs)
    cases hno.symm.trans hq
  | takeSwitch hk _ hp hset =>
    obtain rfl := Option.some.inj (hk.symm.trans hs)
    obtain ⟨rfl, -⟩ := popped hp
    cases hset.symm.trans he
  | take hk _ hp =>
    obtain rfl := Option.some.inj (hk.symm.trans hs)
    obtain ⟨rfl, hq'⟩ := popped hp
    exact ⟨_, (Core.slots_revise hs).trans (if_pos rfl), hq', by simp [ScriptHost.due, Instr.due?]⟩

end Effect

namespace System

variable {S T : System} {a b : Instr} {rest : List Instr} {reply : Reply} {others : List Thread}
  {h l : List Section} {id : Nat} {i : Instance}

/-- What the moves of a run do not end, and the coming of threads neither, lasts throughout it. -/
theorem Run.lasts {P : List Section → System → Prop} (r : Run S l T) (H : Life h S)
    (start : P [] S) (joins : ∀ g U V, U.Joins V → P g U → P g V)
    (moves : ∀ g U V a rest reply others, Life (h ++ g) U → Moves U a rest reply others V →
      ⟨U.machine, a⟩ ∈ l → P g U → P (g ++ [⟨U.machine, a⟩]) V) : P l T := by
  induction r with
  | refl => exact start
  | @snoc g l U V r s ih =>
    have before := ih fun g' U V a rest reply others H M hin =>
      moves g' U V a rest reply others H M (List.mem_append_left _ hin)
    rcases s.joins_or_moves with ⟨rfl, J⟩ | ⟨a, rest, reply, others, rfl, M⟩
    · rw [List.append_nil]
      exact joins g U V J before
    · exact moves g U V a rest reply others (H.run r) M
        (List.mem_append_right _ (List.mem_singleton_self _)) before

/-- What lasts of one instance. It may depend on what is pending, if it is not lost when threads
come. -/
theorem Run.lasts_instance {R : List Instr → Instance → Prop} (r : Run S l T) (H : Life h S)
    (start : ∃ i, S.machine.get? id = some i ∧ R S.pending i)
    (more : ∀ l l' i, (∀ b ∈ l', b.begins = true) → R l i → R (l ++ l') i)
    (moves : ∀ U V a rest reply others g, Life g U → Moves U a rest reply others V →
      ⟨U.machine, a⟩ ∈ l → ∀ i s p, U.machine.get? id = some i →
      V.machine.core.slots[id]? = some s → R U.pending i →
      R V.pending { a.alter id i with slot := s, startParam := p }) :
    ∃ i, T.machine.get? id = some i ∧ R T.pending i := by
  refine r.lasts (P := fun _ S => ∃ i, S.machine.get? id = some i ∧ R S.pending i) H start ?_ ?_
  · rintro _ U V J ⟨i, hi, hR⟩
    obtain ⟨l, hl, hb⟩ := J.pending
    exact ⟨i, (J.get? id).trans hi, hl ▸ more _ _ _ hb hR⟩
  · rintro g U V a rest reply others HU M hin ⟨i, hi, hR⟩
    obtain ⟨s, p, hg⟩ := M.get?_after hi
    exact ⟨_, hg, moves U V a rest reply others _ HU M hin i s p hi (Machine.slot_of_get? hg) hR⟩

theorem Run.lasting_fixed (r : Run S l T) (H : Life h S) (hi : S.machine.get? id = some i) :
    ∃ j, T.machine.get? id = some j ∧ j.identity = i.identity ∧ j.limits = i.limits ∧
      j.program = i.program := by
  refine r.lasts_instance (R := fun _ j => j.identity = i.identity ∧ j.limits = i.limits ∧
    j.program = i.program) H ⟨i, hi, rfl, rfl, rfl⟩ (fun _ _ _ _ h => h) ?_
  rintro U V a rest reply others g - - - j s p - - ⟨he, hl, hp⟩
  obtain ⟨he', hl', hp', -⟩ := a.fixed_alter id j
  exact ⟨he'.trans he, hl'.trans hl, hp'.trans hp⟩

/-! ## The named state -/

theorem Run.lasting_state {state : String} (r : Run S l T) (H : Life h S)
    (undisturbed : ∀ s ∈ l, ∀ state, s.instr ≠ .replaceState id state)
    (hi : S.machine.get? id = some i) (hs : i.state = state) :
    ∃ i, T.machine.get? id = some i ∧ i.state = state := by
  refine r.lasts_instance (R := fun _ i => i.state = state) H ⟨i, hi, hs⟩ (fun _ _ _ _ h => h) ?_
  intro U V a rest reply others g HU M hin i s p _ _ hs
  exact (a.state_alter id i (undisturbed _ hin)).trans hs

/-! ## Variables -/

/-- The variables have been reset, if only to be changed for good once the script is let go, and
if they have been changed for good no handler is about to change them again. -/
def VarsReset (id : Nat) (l : List Instr) (i : Instance) : Prop :=
  i.vars = i.program.initial ∧ (i.pendingEdit = some .resetVars ∨
    i.pendingEdit = none ∧ i.live = i.program.initial ∧ ∀ v x, .act v x ∈ l → v.id ≠ id)

theorem VarsReset.live {l : List Instr} (R : VarsReset id l i) :
    i.settle.live = i.program.initial := by
  rcases R.2 with h | ⟨h, hl, -⟩
  · simp only [Instance.settle, h]
    rfl
  · simpa only [Instance.settle, h] using hl

/-- Where no handler of the instance acts and none is entered, none comes to act. -/
theorem Moves.not_acting (M : Moves S a rest reply others T)
    (entered : ∀ v, a = .enter v → v.id ≠ id)
    (before : ∀ v x, .act v x ∈ S.pending → v.id ≠ id) :
    ∀ v x, .act v x ∈ T.pending → v.id ≠ id := by
  intro v x hb
  rcases M.mem_after.mp hb with hb | hb
  · rcases Machine.next_handles S.machine reply a with ⟨out, -⟩ | ⟨w, -, hn⟩ | ⟨w, ha, hd⟩
    · cases out _ hb
    · rw [hn] at hb
      simp at hb
    · have held : v.id ∈ (a.exec S.machine reply).next.filterMap Instr.holds? :=
        List.mem_filterMap.mpr ⟨_, hb, rfl⟩
      rw [hd.holds, List.mem_singleton] at held
      rw [held]
      rcases ha with ha | ⟨x, rfl⟩
      · exact entered w ha
      · exact before w x (M.mem_before.mpr (.inl rfl))
  · exact before v x (M.mem_before.mpr (.inr hb))

theorem Run.lasting_vars (r : Run S l T) (H : Life h S)
    (undisturbed : ∀ s ∈ l, (∀ e, s.instr ≠ .edit id e) ∧ ∀ v, s.instr = .enter v → v.id ≠ id)
    (hi : S.machine.get? id = some i) (R : VarsReset id S.pending i) :
    ∃ i, T.machine.get? id = some i ∧ VarsReset id T.pending i := by
  refine r.lasts_instance H ⟨i, hi, R⟩ ?_ ?_
  · rintro l l' i hl' ⟨hv, he⟩
    refine ⟨hv, he.imp_right fun ⟨he, hlive, hn⟩ => ⟨he, hlive, fun v x hb => ?_⟩⟩
    rcases List.mem_append.mp hb with hb | hb
    · exact hn v x hb
    · cases hl' _ hb
  · rintro U V a rest reply others g HU M hin i s p hi - ⟨hv, he⟩
    obtain ⟨unedited, entered⟩ := undisturbed _ hin
    have same : VarsReset id V.pending i :=
      ⟨hv, he.imp_right fun ⟨he, hlive, hn⟩ => ⟨he, hlive, M.not_acting entered hn⟩⟩
    suffices VarsReset id V.pending (a.alter id i) from this
    have A := a.alteration id i
    generalize a.alter id i = j at A ⊢
    cases A with
    | edit e => exact absurd rfl (unedited e)
    | settle =>
      -- What the reset kept back is applied, and whoever wrote before does so no more.
      have here : .settle id ∈ U.pending := M.mem_before.mpr (.inl rfl)
      have done : i.settle.live = i.program.initial := VarsReset.live ⟨hv, he⟩
      exact ⟨done, .inr ⟨rfl, done, M.not_acting entered
        fun v x hb => HU.locked.not_acting here hb⟩⟩
    | write v x l hid =>
      rcases he with he | ⟨-, -, hn⟩
      · exact ⟨hv, .inl he⟩
      · exact absurd hid (hn v _ (M.mem_before.mpr (.inl rfl)))
    | _ => exact same

/-! ## The event mask -/

/-- The world has been told the mask of the instance's state last, or is to be told. -/
def MaskTold (id : Nat) (g : List Section) (i : Instance) : Prop :=
  (g.filterMap (Section.mask? id)).getLast? = some (i.program.mask i.state) ∨ i.maskStale = true

/-- What has been told or is to be told stays so while the named state does. -/
theorem MaskTold.step {g : List Section} {m : Machine} (hi : m.get? id = some i)
    (named : ∀ state, a ≠ .replaceState id state) (told : MaskTold id g i) :
    MaskTold id (g ++ [⟨m, a⟩]) (a.alter id i) := by
  have mask : (a.alter id i).program.mask (a.alter id i).state = i.program.mask i.state := by
    rw [(a.fixed_alter id i).2.2.1, a.state_alter id i named]
  rw [MaskTold, mask, List.filterMap_append]
  cases ht : Section.mask? id ⟨m, a⟩ with
  | some x => exact .inl (by simp [ht, Section.mask_eq hi ht])
  | none =>
    refine told.imp (fun h => by simpa [ht] using h) fun h =>
      (Instr.stale_alter h).resolve_left ?_
    rintro rfl
    simp [Section.mask?_settle hi, h] at ht

theorem Run.lasting_mask (before : List Section) (r : Run S l T) (H : Life h S)
    (undisturbed : ∀ s ∈ l, ∀ state, s.instr ≠ .replaceState id state)
    (hi : S.machine.get? id = some i) (told : MaskTold id before i) :
    ∃ i, T.machine.get? id = some i ∧ MaskTold id (before ++ l) i := by
  refine r.lasts (P := fun g S => ∃ i, S.machine.get? id = some i ∧ MaskTold id (before ++ g) i)
    H ⟨i, hi, by rwa [List.append_nil]⟩ ?_ ?_
  · rintro g U V J ⟨i, hi, told⟩
    exact ⟨i, (J.get? id).trans hi, told⟩
  · rintro g U V a rest reply others - M hin ⟨i, hi, told⟩
    obtain ⟨s, p, hg⟩ := M.get?_after hi
    exact ⟨_, hg, List.append_assoc .. ▸ told.step hi (undisturbed _ hin)⟩

/-! ## What is kept back -/

theorem Run.lasting_settled (r : Run S l T) (H : Life h S)
    (undisturbed : ∀ s ∈ l, (∀ e, s.instr ≠ .edit id e) ∧ s.instr ≠ .publishMask id)
    (hi : S.machine.get? id = some i) (settled : i.pendingEdit = none ∧ i.maskStale = false) :
    ∃ i, T.machine.get? id = some i ∧ i.pendingEdit = none ∧ i.maskStale = false := by
  refine r.lasts_instance (R := fun _ i => i.pendingEdit = none ∧ i.maskStale = false) H
    ⟨i, hi, settled⟩ (fun _ _ _ _ h => h) ?_
  intro U V a rest reply others g _ M hin i s p _ _ settled
  exact Instr.settled_alter (undisturbed _ hin).1 (undisturbed _ hin).2 settled

/-! ## The store -/

theorem Run.lasting_lack {item : Uuid} (r : Run S l T) (H : Life h S)
    (undisturbed : ∀ s ∈ l, s.writes? ≠ some item) (L : S.machine.store.Lacks item) :
    T.machine.store.Lacks item := by
  refine r.lasts (P := fun _ S => S.machine.store.Lacks item) H L ?_ ?_
  · exact fun g U V J L => J.store ▸ L
  · intro g U V a rest reply others _ M hin L
    rw [M.machine]
    exact Machine.lacks_exec L reply (undisturbed _ hin)

/-! ## The slot -/

/-- A slot without a turn. -/
theorem Run.lasting_slot (r : Run S l T) (H : Life h S)
    (undisturbed : ∀ s ∈ l, s.instr.directs id = false)
    (hi : S.machine.get? id = some i) (idle : i.slot.current = none) :
    ∃ j, T.machine.get? id = some j ∧ j.slot = i.slot := by
  refine r.lasts_instance (R := fun _ j => j.slot = i.slot) H ⟨i, hi, rfl⟩ (fun _ _ _ _ h => h) ?_
  intro U V a rest reply others g _ M hin j s p hj hs same
  have kept := M.effect.slot_kept (Machine.slot_of_get? hj) (undisturbed _ hin) fun ticket ho => by
    rw [same, Slot.owns, idle] at ho
    cases ho
  exact (Option.some.inj (hs.symm.trans kept)).trans same

/-- Whoever is to call a handler is at the turn that has taken the event. -/
theorem serves_of_due {ticket : Nat} {e : Event} {l : List Instr} (h : (ticket, e) ∈ due id l) :
    ∃ b ∈ l, ∃ v, b.serves? = some v ∧ v.id = id ∧ v.ticket = ticket := by
  obtain ⟨b, hb, hd⟩ := List.mem_filterMap.mp h
  refine ⟨b, hb, ?_⟩
  cases b with
  | readDetected v | lockScript v | enter v =>
    simp only [Instr.due?] at hd
    split at hd
    · next hv => exact ⟨v, rfl, hv, congrArg Prod.fst (Option.some.inj hd)⟩
    · cases hd
  | _ => cases hd

/-- An event that is to be handled stays so, until a handler is entered. -/
theorem Moves.still_due {ticket : Nat} {e : Event} (M : Moves S a rest reply others T)
    (C : S.Coherent) (entered : ∀ v, a = .enter v → v.id ≠ id)
    (hd : (ticket, e) ∈ ScriptHost.due id S.pending) :
    (ticket, e) ∈ ScriptHost.due id T.pending := by
  have uncalled : Section.called id ⟨S.machine, a⟩ = [] := by
    cases a with
    | enter v => exact (Section.called_enter v).trans (Section.on_other (entered v rfl))
    | _ => rfl
  have kept := (M.due C).mem_iff.mp (List.mem_append_right _ hd)
  rwa [uncalled, List.nil_append] at kept

/-- The event is queued alone, and the turn outstanding that will take it; or the turn has taken
it, and its handler is to be called. -/
def Awaits (id : Nat) (e : Event) (l : List Instr) (i : Instance) : Prop :=
  i.slot.running = true ∧ ∃ turn, i.slot.current = some turn ∧
    (i.slot.queue.events = [e] ∧ .finishTurn id turn.ticket ∉ l ∨
      i.slot.queue.events = [] ∧ (turn.ticket, e) ∈ due id l)

theorem Run.lasting_event {e : Event} (r : Run S l T) (H : Life h S)
    (undisturbed : ∀ s ∈ l, s.instr.directs id = false ∧
      (∀ v, s.instr = .enter v → v.id ≠ id) ∧
      ∀ turn i, s.instr = .stopEnd id turn → s.machine.get? id = some i →
        i.owns turn.ticket = false)
    (he : e.isSetState = false) (hi : S.machine.get? id = some i) (W : Awaits id e S.pending i) :
    ∃ i, T.machine.get? id = some i ∧ Awaits id e T.pending i := by
  refine r.lasts_instance H ⟨i, hi, W⟩ ?_ ?_
  · rintro l l' i hl' ⟨hr, turn, hc, hq⟩
    refine ⟨hr, turn, hc, hq.imp (fun ⟨hq, hno⟩ => ⟨hq, fun hb => ?_⟩) fun ⟨hq, hd⟩ =>
      ⟨hq, due_append l l' ▸ List.mem_append_left _ hd⟩⟩
    rcases List.mem_append.mp hb with hb | hb
    · exact hno hb
    · cases hl' _ hb
  · rintro U V a rest reply others g HU M hin i s p hi hs ⟨hr, turn, hc, hq⟩
    obtain ⟨undirected, entered, ended⟩ := undisturbed _ hin
    have owns : i.slot.owns turn.ticket = true := Slot.owns_iff.mpr ⟨turn, hc, rfl⟩
    -- Once the event is to be handled, nobody else takes or finishes the turn.
    have atTurn : (turn.ticket, e) ∈ due id U.pending → a.turn? ≠ some (id, turn.ticket) := by
      intro hd
      obtain ⟨b, hb, v, hv, rfl, ht⟩ := serves_of_due hd
      exact ht ▸ M.not_turn HU.turning hb hv
    by_cases ha : ∃ n, a = .takeTurn id turn.ticket n
    · obtain ⟨n, rfl⟩ := ha
      rcases hq with ⟨hq, -⟩ | ⟨-, hd⟩
      · obtain ⟨q, hk, hq', hd⟩ := M.effect.taken_alone (Machine.slot_of_get? hi) owns hq he
        obtain rfl := Option.some.inj (hs.symm.trans hk)
        refine ⟨hr, turn, hc, .inr ⟨hq', ?_⟩⟩
        obtain ⟨b, hb, hbd⟩ := List.mem_filterMap.mp hd
        exact List.mem_filterMap.mpr ⟨b, M.mem_after.mpr (.inl hb), hbd⟩
      · exact absurd rfl (atTurn hd)
    · have kept := M.effect.slot_kept (Machine.slot_of_get? hi) undirected fun ticket ho => by
        obtain rfl := Slot.owns_unique ho owns
        refine ⟨fun n h => ha ⟨n, h⟩, ?_⟩
        rintro (rfl | ⟨turn', ht, rfl⟩)
        · rcases hq with ⟨-, hno⟩ | ⟨-, hd⟩
          · exact hno (M.mem_before.mpr (.inl rfl))
          · exact atTurn hd rfl
        · have := ended turn' i rfl hi
          rw [ht] at this
          cases this.symm.trans owns
      obtain rfl := Option.some.inj (hs.symm.trans kept)
      refine ⟨hr, turn, hc, hq.imp (fun ⟨hq, hno⟩ => ⟨hq, fun hb => ?_⟩) fun ⟨hq, hd⟩ =>
        ⟨hq, M.still_due HU.coherent entered hd⟩⟩
      rcases M.mem_after.mp hb with hb | hb
      · rcases (M.leadsTo hb).turnOnly rfl with
          ⟨k, t, n, rfl, hf | ⟨w, hf⟩⟩ | ⟨w, l, -, hf⟩ | ⟨w, -, hf⟩ <;> cases hf
        exact ha ⟨n, rfl⟩
      · exact hno (M.mem_before.mpr (.inr hb))

/-! ## Handlers -/

/-- Whoever is at the outstanding turn has not entered its handler. -/
def Unentered (id : Nat) (l : List Instr) (i : Instance) : Prop :=
  ∀ b ∈ l, ∀ v, b.serves? = some v → v.id = id → i.owns v.ticket = true → b.leadsToCall = true

theorem Run.lasting_unentered (r : Run S l T) (H : Life h S)
    (undisturbed : ∀ s ∈ l, ∀ v, s.instr = .enter v → v.id ≠ id)
    (hi : S.machine.get? id = some i) (N : Unentered id S.pending i) :
    ∃ i, T.machine.get? id = some i ∧ Unentered id T.pending i := by
  refine r.lasts_instance H ⟨i, hi, N⟩ ?_ ?_
  · intro l l' i hl' N b hb v hv
    rcases List.mem_append.mp hb with hb | hb
    · exact N b hb v hv
    · have := hl' b hb
      cases b <;> first | (cases this; done) | cases hv
  · rintro U V a rest reply others g HU M hin i s p hi hs N b hb v hv rfl ho
    obtain ⟨i', hi', rfl⟩ := Machine.exists_get? hs
    have before : ∀ {b : Instr} {w : Invocation}, b ∈ U.pending → b.serves? = some w →
        w.Same v → b.leadsToCall = true := fun hb hw same =>
      N _ hb _ hw same.id (M.owns_before HU.coherent (HU.turning.finishes hb hw) rfl
        (same.id.symm ▸ hi) (same.id.symm ▸ hi') (same.ticket ▸ ho))
    rcases M.mem_after.mp hb with hb | hb
    · rcases Machine.serves_next U.machine reply hb hv with
        ⟨w, hw, same⟩ | ⟨n, _, _, -, -, -, -, -, hn⟩
      · have := before (M.mem_before.mpr (.inl rfl)) hw same
        cases a with
        | readDetected w =>
          simp only [Instr.exec, Instr.leads] at hb
          split at hb
          · rw [List.mem_singleton.mp hb]
            rfl
          · cases hb
        | lockScript w =>
          simp only [Instr.exec, List.mem_cons, List.not_mem_nil, or_false] at hb
          rcases hb with rfl | rfl
          · cases hv
          · rfl
        | enter w =>
          cases hw
          exact absurd same.id (undisturbed _ hin w rfl)
        | takeTurn => cases hw
        | _ => cases this
      · rw [hn] at hb
        simp only [List.mem_cons, List.not_mem_nil, or_false] at hb
        rcases hb with rfl | rfl
        · rfl
        · cases hv
    · exact before (M.mem_before.mpr (.inr hb)) hv (.refl v)

end System

end ScriptHost
