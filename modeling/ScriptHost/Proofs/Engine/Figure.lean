import ScriptHost.Proofs.Engine.Standing

/-!
# What becomes of a free instance

What a free instance does is told by its `Figure`: tickets, jobs and counters do
not matter to it, nor does anything else on its machine. `Figure.Leads` says
this of a list of sections, and is composed along agendas; by `Figure.call` it
holds of every operation on an instance between turns.
-/

namespace ScriptHost

/-- What of a free instance decides what it does. -/
structure Figure where
  program : Program
  state : String
  running : Bool
  vars : Vars
  queue : Queue
  event : Option String
  deleting : Bool

def Instance.figure (i : Instance) : Figure :=
  ⟨i.program, i.state, i.slot.running, i.vars, i.slot.queue, i.currentEvent, i.selfDeleting⟩

namespace Figure

/-- Any free instance of the figure `f` for which the sections are done, and nothing else, comes to
the figure `g`, and `s` is what is seen of it; and it keeps its outstanding turn, if `keeps`. -/
def Leads (keeps : Bool) (f : Figure) (l : Nat → List Instr) (s : List Sight) (g : Figure) : Prop :=
  ∀ (m : Machine) (id : Nat) (i : Instance), m.Free id i → i.figure = f → ∀ rest r,
    ∃ m' j r', Thread.Goes id m ⟨l id ++ rest, r⟩ s m' ⟨rest, r'⟩ ∧ m'.Free id j ∧ j.figure = g ∧
      (keeps = true → ∀ turn, i.slot.current = some turn → j.slot.current = some turn)

namespace Leads

variable {keeps : Bool} {f g h : Figure} {l l' : Nat → List Instr} {s s' : List Sight}
  {a : Nat → Instr}

theorem nil : f.Leads keeps (fun _ => []) [] f := fun _ _ _ F e _ _ =>
  ⟨_, _, _, .refl _ _ _, F, e, fun _ _ h => h⟩

theorem append (h₁ : f.Leads keeps l s g) (h₂ : g.Leads keeps l' s' h) :
    f.Leads keeps (fun id => l id ++ l' id) (s ++ s') h := by
  intro m id i F e rest r
  obtain ⟨m₁, i₁, r₁, go₁, F₁, e₁, k₁⟩ := h₁ m id i F e (l' id ++ rest) r
  obtain ⟨m₂, i₂, r₂, go₂, F₂, e₂, k₂⟩ := h₂ m₁ id i₁ F₁ e₁ rest r₁
  refine ⟨m₂, i₂, r₂, ?_, F₂, e₂, fun hk turn ht => k₂ hk turn (k₁ hk turn ht)⟩
  rw [List.append_assoc]
  exact go₁.trans go₂

theorem forget (h : f.Leads true l s g) : f.Leads keeps l s g := by
  intro m id i F e rest r
  obtain ⟨m', j, r', go, F', e', k⟩ := h m id i F e rest r
  exact ⟨m', j, r', go, F', e', fun _ => k rfl⟩

/-- A section that leads to no others, whatever else it does. -/
theorem one (hb : ∀ m id, (a id).blocked m = false)
    (h : ∀ {m id i}, m.Free id i → i.figure = f → ∀ r, Section.sights id ⟨m, a id⟩ = s ∧
      ((a id).exec m r).next = [] ∧ ∃ j, ((a id).exec m r).machine.Free id j ∧ j.figure = g ∧
        ∀ turn, i.slot.current = some turn → j.slot.current = some turn) :
    f.Leads true (fun id => [a id]) s g := by
  intro m id i F e rest r
  obtain ⟨hs, hn, j, F', e', k⟩ := h F e r
  have go : Thread.Goes id m ⟨a id :: rest, r⟩ (Section.sights id ⟨m, a id⟩) _ _ := .one (hb m id)
  rw [hs, hn] at go
  exact ⟨_, j, _, go, F', e', fun _ => k⟩

/-- A section that is not seen and does not concern the slot, and leads to others. -/
theorem first (hb : ∀ m id, (a id).blocked m = false) (hu : ∀ id, (a id).unseen = true)
    (hs : ∀ id, (a id).Still)
    (h : ∀ {m id i}, m.Free id i → i.figure = f → ∀ r, ∃ l f', ((a id).exec m r).next = l id ∧
      (∀ p j, j = { (a id).alter id i with slot := i.slot, startParam := p } →
        j.held = false ∧ j.settle.live = j.vars ∧ j.figure = f') ∧ f'.Leads keeps l s g) :
    f.Leads keeps (fun id => [a id]) s g := by
  intro m id i F e rest r
  obtain ⟨l, f', hn, ha, h⟩ := h F e r
  obtain ⟨p, S⟩ := F.toStands.still r (hs id)
  obtain ⟨hh, hl, hf⟩ := ha p _ rfl
  obtain ⟨m', j, r', go, F', e', k⟩ := h _ id _ ⟨S, hh, hl⟩ hf rest ((a id).exec m r).reply
  refine ⟨m', j, r', .step (hb m id) (hu id) ?_, F', e', k⟩
  rw [hn]
  exact go

/-- A section that leads to no others. -/
theorem still (hb : ∀ m id, (a id).blocked m = false) (hu : ∀ id, (a id).unseen = true)
    (hs : ∀ id, (a id).Still) (hn : ∀ m id r, ((a id).exec m r).next = [])
    (h : ∀ id i p, i.held = false → i.settle.live = i.vars → i.figure = f →
      ∀ j, j = { (a id).alter id i with slot := i.slot, startParam := p } →
        j.held = false ∧ j.settle.live = j.vars ∧ j.figure = g) :
    f.Leads true (fun id => [a id]) [] g :=
  first hb hu hs fun {_ id i} F e r =>
    ⟨_, g, hn _ _ r, fun p j hj => h id i p F.unheld F.settled e j hj, nil⟩

/-- A section that takes the script for an errand, and nothing is done before it lets go. -/
theorem errand (e : Errand) (hb : ∀ m id, (a id).blocked m = false)
    (hu : ∀ id, (a id).unseen = true) (hs : ∀ id, (a id).Still)
    (hn : ∀ {m id i}, m.Free id i → ∀ r, ((a id).exec m r).next = [.letGo id e])
    (h : ∀ id i p, i.held = false → i.settle.live = i.vars → i.figure = f →
      ∀ j, j = { ((a id).alter id i).letGo e with slot := i.slot, startParam := p } →
        j.held = false ∧ j.settle.live = j.vars ∧ j.figure = g) :
    f.Leads true (fun id => [a id]) [] g := by
  intro m id i F ef rest r
  obtain ⟨p, S⟩ := F.toStands.still r (hs id)
  obtain ⟨p', S'⟩ := S.still ((a id).exec m r).reply (a := .letGo id e) (.of_minor rfl)
  have gone : (Instr.letGo id e).alter id { (a id).alter id i with
      slot := i.slot, startParam := p } =
      { ((a id).alter id i).letGo e with slot := i.slot, startParam := p } := if_pos rfl
  rw [gone] at S'
  obtain ⟨hh, hl, hf⟩ := h id i p' F.unheld F.settled ef _ rfl
  refine ⟨_, _, ((a id).exec m r).reply, .step (hb m id) (hu id) ?_, ⟨S', hh, hl⟩, hf,
    fun _ turn ht => ht⟩
  rw [hn F r]
  exact .step rfl rfl (.refl _ _ _)

/-- A section that changes nothing of a free instance, and leads to others. -/
theorem via (hb : ∀ m id, (a id).blocked m = false) (hu : ∀ id, (a id).unseen = true)
    (hs : ∀ id, (a id).Still) (ha : ∀ id i, i.held = false → (a id).alter id i = i)
    (h : ∀ {m id i}, m.Free id i → i.figure = f → ∀ r,
      ∃ l, ((a id).exec m r).next = l id ∧ f.Leads keeps l s g) :
    f.Leads keeps (fun id => [a id]) s g :=
  first hb hu hs fun {_ id i} F e r => by
    obtain ⟨l, hn, h⟩ := h F e r
    refine ⟨l, f, hn, ?_, h⟩
    rintro p j rfl
    rw [ha id i F.unheld]
    exact ⟨F.unheld, F.settled, e⟩

/-- A section that changes nothing of a free instance. -/
theorem idle (hb : ∀ m id, (a id).blocked m = false) (hu : ∀ id, (a id).unseen = true)
    (hs : ∀ id, (a id).Still) (ha : ∀ id i, i.held = false → (a id).alter id i = i)
    (hn : ∀ m id r, ((a id).exec m r).next = []) : f.Leads true (fun id => [a id]) [] f :=
  via hb hu hs ha fun _ _ r => ⟨_, hn _ _ r, nil⟩

end Leads

/-- The sections lead the same way from all instances of the figure, which keep their program and
the event that they are at. -/
def Answers (keeps : Bool) (f : Figure) (l : Nat → List Instr) : Prop :=
  ∃ s g, f.Leads keeps l s g ∧ g.event = f.event ∧ g.program = f.program

namespace Answers

variable {keeps : Bool} {f : Figure} {l l' : Nat → List Instr}

theorem of_leads {s : List Sight} (h : f.Leads keeps l s f) : f.Answers keeps l :=
  ⟨s, f, h, rfl, rfl⟩

theorem nil : f.Answers keeps fun _ => [] := of_leads .nil

theorem append (h : f.Answers keeps l)
    (h' : ∀ g : Figure, g.event = f.event → g.program = f.program → g.Answers keeps l') :
    f.Answers keeps fun id => l id ++ l' id := by
  obtain ⟨s, g, h₁, he, hp⟩ := h
  obtain ⟨s', g', h₂, he', hp'⟩ := h' g he hp
  exact ⟨s ++ s', g', h₁.append h₂, he'.trans he, hp'.trans hp⟩

theorem forget (h : f.Answers true l) : f.Answers keeps l := by
  obtain ⟨s, g, h, kept⟩ := h
  exact ⟨s, g, h.forget, kept⟩

end Answers

/-! ## Sections about an instance -/

section Sections

variable {f : Figure}

theorem leads_answer (reply : Reply) : f.Leads true (fun _ => [.answer reply]) [] f :=
  .idle (fun _ _ => rfl) (fun _ => rfl) (fun _ => .of_minor rfl) (fun _ _ _ => rfl) fun _ _ _ => rfl

theorem leads_log (l : Level) (s : String) : f.Leads true (fun _ => [.log l s]) [] f :=
  .idle (fun _ _ => rfl) (fun _ => rfl) (fun _ => .of_minor rfl) (fun _ _ _ => rfl) fun _ _ _ => rfl

theorem leads_count (c : Metric) : f.Leads true (fun _ => [.count c]) [] f :=
  .idle (fun _ _ => rfl) (fun _ => rfl) (fun _ => .of_minor rfl) (fun _ _ _ => rfl) fun _ _ _ => rfl

theorem leads_clearPermissions : f.Leads true (fun id => [.clearPermissions id]) [] f :=
  .idle (fun _ _ => rfl) (fun _ => rfl) (fun _ => .of_minor rfl) (fun _ _ _ => rfl)
    fun _ _ _ => Instr.next_about

theorem leads_removePlugins : f.Leads true (fun id => [.removePlugins id]) [] f :=
  .idle (fun _ _ => rfl) (fun _ => rfl) (fun _ => .of_minor rfl) (fun _ _ _ => rfl)
    fun _ _ _ => Instr.next_about

theorem leads_removeState : f.Leads true (fun id => [.removeState id]) [] f :=
  .idle (fun _ _ => rfl) (fun _ => rfl) (fun _ => .of_minor rfl) (fun _ _ _ => rfl)
    fun _ _ _ => Instr.next_about

theorem leads_importData (data : Bytes) : f.Leads true (fun id => [.importData id data]) [] f :=
  .idle (fun _ _ => rfl) (fun _ => rfl) (fun _ => .of_minor rfl) (fun _ _ _ => rfl)
    fun _ _ _ => Instr.next_about

theorem leads_edit (e : Edit) : f.Leads true (fun id => [.edit id e]) []
    { f with vars := match e with
      | .setVars vars => f.program.retain vars
      | .resetVars => f.program.initial } := by
  refine .errand .edit (fun _ _ => rfl) (fun _ => rfl) (fun _ => .of_minor rfl) ?_ ?_
  · intro m id i F r
    simp [Instr.exec, Instr.leads, F.here, Instance.keepsEdits_of_unheld F.unheld]
  · rintro id i p hh - rfl j rfl
    simp only [Instr.alter, Instr.change?, if_true, Instance.letGo_edit hh]
    cases e <;> exact ⟨hh, rfl, rfl⟩

theorem leads_replaceState (state : String) :
    f.Leads true (fun id => [.replaceState id state]) [] { f with state := state } := by
  refine .still (fun _ _ => rfl) (fun _ => rfl) (fun _ => .of_minor rfl) (fun _ _ _ => rfl) ?_
  rintro id i p hh hs rfl j rfl
  simp only [Instr.alter, Instr.change?, if_true]
  exact ⟨hh, hs, rfl⟩

theorem leads_publishMask : f.Leads true (fun id => [.publishMask id]) [] f := by
  refine .errand .mask (fun _ _ => rfl) (fun _ => rfl) (fun _ => .of_minor rfl) ?_ ?_
  · intro m id i F r
    simp [Instr.exec, Instr.leads, F.here, F.unheld]
  · rintro id i p hh hs rfl j rfl
    simp only [Instr.alter, Instr.change?, if_true, Instance.letGo_publish hh]
    exact ⟨hh, hs, rfl⟩

/-! The sections about the queue and the running flag ask for a turn if they must. -/

/-- A section that makes a revision of the slot, in which an outstanding turn stays. -/
theorem Leads.revise {a : Nat → Instr} {s : List Sight} {g : Figure}
    (hb : ∀ m id, (a id).blocked m = false) (ho : ∀ id o, a id ≠ .op o)
    (ha : ∀ id i, (a id).alter id i = i) (v : Instance → Revision)
    (h : ∀ {m id i}, m.Free id i → i.figure = f → ∀ r, Section.sights id ⟨m, a id⟩ = s ∧
      ((a id).exec m r).next = [] ∧ ((a id).exec m r).machine.core = m.core.revise id (v i) ∧
      i.slot.Sound (v i) ∧
      ((v i).asks = true ∨ (v i).slot.current ≠ none → (v i).slot.running = true) ∧
      ({ i with slot := (v i).slot } : Instance).figure = g ∧
      ∀ turn, i.slot.current = some turn →
        (v i).asks = false ∧ (v i).slot.current = some turn) :
    f.Leads true (fun id => [a id]) s g := by
  refine .one hb fun {m id i} F e r => ?_
  obtain ⟨hs, hn, hc, sound, up, hg, keep⟩ := h F e r
  obtain ⟨p, S⟩ := F.toStands.revise r (ho id) hc sound up
  rw [ha] at S
  refine ⟨hs, hn, _, ⟨S, F.unheld, F.settled⟩, ?_, fun turn ht => ?_⟩
  · rw [← hg]
    cases (v i).asks <;> rfl
  · obtain ⟨hasks, hcur⟩ := keep turn ht
    simp only [hasks, Bool.false_eq_true, if_false]
    exact hcur

theorem leads_start : f.Leads true (fun id => [.start id]) [] { f with running := true } := by
  refine .revise (fun _ _ => rfl) (fun _ _ => nofun) (fun _ _ => rfl) (·.slot.start) ?_
  rintro m id i F rfl r
  refine ⟨rfl, Instr.next_about, ?_, Slot.sound_start, fun _ => Slot.running_start, ?_, ?_⟩
  · simp only [Instr.exec, Instr.about, F.here]
    exact Machine.core_start F.here
  · simp [Instance.figure]
  · intro turn ht
    have hr : i.slot.running = true := F.orderly.running (by simp [ht])
    simp [Slot.start, hr, ht]

theorem leads_clearQueue :
    f.Leads true (fun id => [.clearQueue id]) [] { f with queue := f.queue.clear } := by
  refine .revise (fun _ _ => rfl) (fun _ _ => nofun) (fun _ _ => rfl)
    (fun i => ⟨{ i.slot with queue := i.slot.queue.clear }, false⟩) ?_
  rintro m id i F rfl r
  refine ⟨rfl, rfl, ?_, Slot.sound_clear, ?_, rfl, fun turn ht => ⟨rfl, ht⟩⟩
  · exact Machine.core_modify_slot (Machine.slot_of_get? F.here) _
      (fun s => { s with queue := s.queue.clear }) (fun _ => rfl) fun _ => rfl
  · simpa using F.orderly.running

/-- A queue is refilled before the instance runs. -/
theorem leads_refill (l : List Event) (h : f.running = false) :
    f.Leads true (fun id => [.refill id l]) [] { f with queue := f.queue.pushAll l } := by
  refine .revise (fun _ _ => rfl) (fun _ _ => nofun) (fun _ _ => rfl)
    (fun i => ⟨{ i.slot with queue := i.slot.queue.pushAll l }, false⟩) ?_
  rintro m id i F rfl r
  refine ⟨rfl, rfl, ?_, Slot.sound_refill l h, ?_, rfl, fun turn ht => ⟨rfl, ht⟩⟩
  · exact Machine.core_modify_slot (Machine.slot_of_get? F.here) _
      (fun s => { s with queue := s.queue.pushAll l }) (fun _ => rfl) fun _ => rfl
  · simpa using F.orderly.running

/-- An event is queued if the instance runs. -/
def post (f : Figure) (e : Event) : Figure :=
  if f.running then { f with queue := (f.queue.push e).1 } else f

theorem leads_post (e : Event) : f.Leads true (fun id => [.post id e])
    [.posted (if f.running then (f.queue.push e).2 else .notRunning)] (f.post e) := by
  refine .revise (fun _ _ => rfl) (fun _ _ => nofun) (fun _ _ => rfl) (·.slot.post e) ?_
  rintro m id i F rfl r
  refine ⟨?_, ?_, ?_, Slot.sound_post e, ?_, ?_, ?_⟩
  · simp only [Section.sights, Section.on_self F.here, Machine.post, Instance.figure]
    by_cases hr : i.slot.running = true <;> simp [hr]
  · simp only [Instr.exec, F.here, Instr.plain]
  · simp only [Instr.exec, F.here, Instr.plain]
    exact Machine.core_post F.here e
  · rintro (h | h)
    · exact (Slot.hasWork_iff.mp (Slot.asks_post h).1).1
    · rw [Slot.running_post]
      refine F.orderly.running fun hc => h ?_
      unfold Slot.post
      split <;> exact hc
  · unfold post Slot.post Instance.figure
    cases hr : i.slot.running <;> simp [hr]
  · intro turn ht
    unfold Slot.post
    split <;> simp [ht]

theorem answers_post (e : Event) : f.Answers true fun id => [.post id e] := by
  refine ⟨_, _, leads_post e, ?_⟩
  unfold post
  split <;> exact ⟨rfl, rfl⟩

theorem leads_register : f.Leads true (fun id => [.register id]) [] f :=
  .idle (fun _ _ => rfl) (fun _ => rfl)
    (fun id => ⟨fun _ => nofun, fun m r => by simp only [Instr.exec, Instr.about]; split <;> rfl,
      fun m r => by simp only [Instr.exec, Instr.about]; split <;> rfl⟩)
    (fun _ _ _ => rfl) fun _ _ _ => Instr.next_about

theorem leads_loaded (name : String) (place : Nat) :
    f.Leads true (fun id => [.loaded id name place]) [] f :=
  .idle (fun _ _ => rfl) (fun _ => rfl)
    (fun _ => ⟨fun _ => nofun, fun _ _ => rfl, fun _ _ => rfl⟩) (fun _ _ _ => rfl)
    fun _ _ _ => rfl

/-- A `state_entry` is posted unless one is being handled. -/
theorem answers_stateEntryUnlessCurrent :
    f.Answers true fun id => [.stateEntryUnlessCurrent id] := by
  have via : ∀ {l s g}, f.Leads true l s g →
      (∀ id, l id = if f.event == some "state_entry" then [] else [.post id .stateEntry]) →
      f.Leads true (fun id => [.stateEntryUnlessCurrent id]) s g := fun hl hn => by
    refine .via (fun _ _ => rfl) (fun _ => rfl) (fun _ => .of_minor rfl) (fun _ _ _ => rfl) ?_
    rintro m id i F rfl r
    refine ⟨_, ?_, hl⟩
    rw [hn id]
    simp only [Instr.exec, Instr.leads, F.here]
    rfl
  by_cases he : (f.event == some "state_entry") = true
  · exact .of_leads (via .nil fun id => (if_pos he).symm)
  · obtain ⟨s, g, hp, kept⟩ := answers_post (f := f) .stateEntry
    exact ⟨s, g, via hp fun id => (if_neg he).symm, kept⟩

/-- A save goes from section to section, and changes nothing of the instance. -/
theorem leads_save : f.Leads true (fun id => [.save id .running]) [] f := by
  have via : ∀ {s : Saving}, (∀ {m : Machine} {id : Nat} {i : Instance}, m.Free id i →
      ∃ l, (m.save id i s).2.1 = l id ∧ f.Leads true l [] f) → f.Leads true (fun id => [.save id s]) [] f := fun h =>
    .via (fun _ _ => rfl) (fun _ => rfl) (fun _ => .of_minor rfl) (fun _ _ _ => rfl) fun {m id i} F _ r => by
      obtain ⟨l, hl, next⟩ := h F
      refine ⟨l, ?_, next⟩
      simp only [Instr.exec, F.here]
      exact hl
  have verify : f.Leads true (fun id => [.save id .verify]) [] f := via fun F =>
    ⟨fun _ => [], by simp only [Machine.save]; split <;> rfl, .nil⟩
  have write : ∀ d, f.Leads true (fun id => [.save id (.write d)]) [] f := fun d =>
    via fun F => ⟨fun id => [.save id .verify], rfl, verify⟩
  exact via fun F => ⟨_, rfl, via fun F => ⟨_, rfl, via fun F => ⟨_, rfl, via fun F => ⟨_, rfl,
    via fun F => ⟨_, rfl, write _⟩⟩⟩⟩⟩

/-! ## Stops and resets -/

theorem instances_forceAbort (m : Machine) (i : Instance) (turn : Turn) :
    (m.forceAbort i turn).instances = m.instances := by
  unfold Machine.forceAbort Machine.abort
  simp only
  split
  · rfl
  · split
    · rfl
    · split <;> rfl

/-- A stop that has found a turn at work waits for it in vain, and gives it up. -/
theorem gives_up {m : Machine} {id ms : Nat} {i : Instance} {turn : Turn} (hi : m.get? id = some i)
    (hh : m.hooks = ([], [], [])) (hr : i.slot.running = false)
    (hc : i.slot.current = some turn) (hf : m.finished turn.job = false) (rest : List Instr)
    (r : Reply) : ∃ m', Thread.Goes id m ⟨.stopWait id ms turn :: rest, r⟩ [] m' ⟨rest, r⟩ ∧
      m'.get? id = some i.release.clearSnapshot ∧ m'.hooks = ([], [], []) := by
  have waits : (m.note (.wait turn.job ms)).waitHooks = [] := congrArg Prod.fst hh
  have owns : i.owns turn.ticket = true := Slot.owns_iff.mpr ⟨turn, hc, rfl⟩
  let n := m.note (.wait turn.job ms)
  let n' := n.forceAbort i turn
  have hn' : n'.get? id = some i := by
    rw [Machine.get?, instances_forceAbort]; exact hi
  have hw : i.slot.hasWork = false := by simp [Slot.hasWork, hr]
  refine ⟨n'.modify id fun i => i.release.clearSnapshot, .step rfl rfl ?_, ?_, ?_⟩
  · simp only [Instr.exec, waits]
    refine .step rfl rfl ?_
    rw [show (Instr.stopWaited id ms turn none).exec n r = ⟨n, [.stopCheck id ms turn], r⟩ from
      if_neg (Bool.eq_false_iff.mp (show n.finished turn.job = false from hf))]
    refine .step rfl rfl ?_
    rw [show (Instr.stopCheck id ms turn).exec n r =
        ⟨n, [.stopAbort id turn, .stopEnd id turn], r⟩ by
      simp only [Instr.exec, Instr.leads, show n.get? id = some i from hi, owns, if_true]]
    refine .step rfl rfl ?_
    rw [show (Instr.stopAbort id turn).exec n r = ⟨n', [], r⟩ by
      simp only [Instr.exec, Instr.about, show n.get? id = some i from hi, Instr.plain]; rfl]
    refine .step rfl rfl ?_
    rw [show (Instr.stopEnd id turn).exec n' r =
        ⟨n'.modify id fun i => i.release.clearSnapshot, [], r⟩ by
      simp only [Instr.exec, Instr.about, hn', Instr.plain, Machine.endStop, owns, hw, if_true,
        Bool.false_eq_true, if_false]]
    exact .refl _ _ _
  · rw [Machine.get?_modify_self, hn']; rfl
  · exact (congrArg Prod.snd (Machine.surroundings_forceAbort n i turn)).trans hh

/-- A stop ends with the instance stopped, whether the pool gives a turn back or not. -/
theorem leads_stop (ms : Nat) (he : f.event = none) :
    f.Leads false (fun id => [.stop id ms]) [] { f with running := false } := by
  rintro m id i F rfl rest r
  have hs := Machine.slot_of_get? F.here
  have unhooked := Machine.hooks_exec F.unhooked r (a := .stop id ms) fun o h => by cases h
  have e := effect_exec m r (.stop id ms)
  -- What is left to be shown once the instance has stopped without a turn.
  have stopped : ∀ {m' : Machine} {j : Instance} (s : Slot) (p : Int64) (d : List Detection),
      m'.get? id = some j → m'.hooks = ([], [], []) →
      j = { i with slot := s, startParam := p, currentEvent := none, detected := d } →
      s.running = false → s.current = none → s.queue = i.slot.queue →
      m'.Free id j ∧ j.figure = { i.figure with running := false } := by
    rintro m' j s p d hg hh rfl hr hc hq
    refine ⟨⟨⟨hg, hh, .of_rest (by simp [Slot.hasWork, hr]) hc⟩, F.unheld, F.settled⟩, ?_⟩
    simp only [Instance.figure, hr, hq]
    rw [show i.currentEvent = none from he]
  have ends : ∀ {s : Slot}, ((Instr.stop id ms).exec m r).machine.core.slots[id]? = some s →
      ((Instr.stop id ms).exec m r).next = [] → s.running = false → s.current = none →
      s.queue = i.slot.queue → ∃ m' j r', Thread.Goes id m ⟨.stop id ms :: rest, r⟩ [] m' ⟨rest, r'⟩ ∧
        m'.Free id j ∧ j.figure = { i.figure with running := false } ∧
          (false = true → ∀ turn, i.slot.current = some turn → j.slot.current = some turn) := by
    intro s hs' hn hr hc hq
    obtain ⟨p, hg⟩ := Machine.get?_exec_of_slot r _ F.here hs'
    obtain ⟨F', e'⟩ := stopped s p i.detected hg unhooked
      (by rw [← show i.currentEvent = none from he]; rfl) hr hc hq
    refine ⟨_, _, ((Instr.stop id ms).exec m r).reply, .step rfl rfl ?_, F', e',
      fun h => absurd h Bool.false_ne_true⟩
    rw [hn]
    exact .refl _ _ _
  generalize hcore : ((Instr.stop id ms).exec m r).machine.core = c,
    hn : ((Instr.stop id ms).exec m r).next = next at e
  cases e with
  | silent h => cases h
  | fresh h => rcases h with h | h <;> cases h
  | absent h hno => cases h; cases F.here.symm.trans hno
  | @halt _ _ s hs' hno =>
    obtain rfl : i.slot = s := Option.some.inj (hs.symm.trans hs')
    refine ends (s := i.slot.halt false) (by rw [hcore, Core.slots_revise hs, if_pos rfl]; rfl) hn
      rfl ?_ rfl
    rcases hno with hr | hc
    · exact Classical.byContradiction fun hc =>
        Bool.false_ne_true (hr.symm.trans (F.orderly.running hc))
    · exact hc
  | @cancel _ _ s turn hs' hr hc hcan =>
    obtain rfl : i.slot = s := Option.some.inj (hs.symm.trans hs')
    exact ends (s := i.slot.halt true)
      (by rw [hcore, Core.slots_revise (c := m.core.rephase turn.job .cancelled) hs, if_pos rfl]; rfl)
      hn rfl rfl rfl
  | @await _ _ s turn hs' hr hc hcan =>
    obtain rfl : i.slot = s := Option.some.inj (hs.symm.trans hs')
    obtain ⟨p, hg⟩ := Machine.get?_exec_of_slot r (.stop id ms) F.here
      (s := i.slot.halt false) (by rw [hcore, Core.slots_revise hs, if_pos rfl]; rfl)
    obtain ⟨j, hj, hf, -⟩ := F.orderly.job turn hc
    have unfinished : ((Instr.stop id ms).exec m r).machine.finished turn.job = false := by
      have : ((Instr.stop id ms).exec m r).machine.core.job? turn.job = some j := by
        rw [hcore]; exact Core.job?_revise_of_some hj
      rw [Machine.core_job?] at this
      simp only [Machine.finished, this, hf]
    obtain ⟨m', go, hg', hh'⟩ := gives_up hg unhooked rfl hc unfinished rest
      ((Instr.stop id ms).exec m r).reply
    obtain ⟨F', e'⟩ := stopped _ p [] hg' hh' rfl rfl rfl rfl
    refine ⟨m', _, ((Instr.stop id ms).exec m r).reply, .step rfl rfl ?_, F', e',
      fun h => absurd h Bool.false_ne_true⟩
    rw [hn]
    exact go

/-- A reset from outside stops the instance, and starts it again if it was running. -/
theorem answers_reset (he : f.event = none) : f.Answers false fun id => [.reset id] := by
  have all : f.Answers false fun id => Instr.resetAll id f.running := by
    have stop : f.Answers false fun id => [.stop id 0] := ⟨_, _, leads_stop 0 he, rfl, rfl⟩
    have tidy : ∀ g : Figure, g.Answers false fun id => [.removeState id, .clearPermissions id,
        .removePlugins id, .clearQueue id, .edit id .resetVars,
        .replaceState id Instance.defaultState, .publishMask id] := fun g =>
      ⟨_, _, (leads_removeState.append (leads_clearPermissions.append (leads_removePlugins.append
        (leads_clearQueue.append ((leads_edit .resetVars).append
          ((leads_replaceState _).append leads_publishMask)))))).forget, rfl, rfl⟩
    have restart : ∀ g : Figure,
        g.Answers false fun id => (if f.running then [.start id] else []) ++ [.post id .stateEntry] :=
      fun g => by
        refine .append ?_ fun g _ _ => (answers_post _).forget
        split
        · exact ⟨_, _, leads_start.forget, rfl, rfl⟩
        · exact .nil
    have := (stop.append fun g _ _ => tidy g).append fun g _ _ => restart g
    simpa only [Instr.resetAll, Instr.revokeGrants, List.append_assoc, List.cons_append,
      List.nil_append] using this
  obtain ⟨s, g, h, kept⟩ := all
  refine ⟨s, g, .via (fun _ _ => rfl) (fun _ => rfl) (fun _ => ⟨fun _ h => (by cases h), fun m r => ?_,
    fun m r => ?_⟩) (fun _ _ _ => rfl) ?_, kept⟩
  · simp only [Instr.exec, Instr.leads]; split <;> rfl
  · simp only [Instr.exec, Instr.leads]; split <;> rfl
  · rintro m id i F rfl r
    exact ⟨_, by simp only [Instr.exec, Instr.leads, F.here]; rfl, h⟩

/-- What a script asks for itself. -/
theorem answers_request (q : Request) : f.Answers true fun id => Instr.request id q := by
  cases q with
  | setState state =>
    exact (answers_post _).append fun g _ _ => (answers_post _).append fun g _ _ => answers_post _
  | reset =>
    have tidy : f.Answers true fun id => [.removeState id, .edit id .resetVars,
        .clearPermissions id, .removePlugins id, .replaceState id Instance.defaultState,
        .publishMask id] :=
      ⟨_, _, leads_removeState.append ((leads_edit .resetVars).append
        (leads_clearPermissions.append (leads_removePlugins.append
          ((leads_replaceState _).append leads_publishMask)))), rfl, rfl⟩
    exact tidy.append fun g _ _ => answers_stateEntryUnlessCurrent

theorem answers_requests (l : List Request) :
    f.Answers true fun id => l.flatMap (Instr.request id) := by
  induction l generalizing f with
  | nil => exact .nil
  | cons q l ih => exact (answers_request q).append fun g _ _ => ih

end Sections

/-! ## Operations -/

/-- What an operation on an instance comes to does not depend on the machine. -/
theorem answers_onInstance {f : Figure} (he : f.event = none) (o : Op) :
    ∃ l, (∀ m id i, (Machine.onInstance m id i o).2.1 = l id) ∧ f.Answers false l := by
  have answer : ∀ {g : Figure} (r : Reply), g.Answers false fun _ => [.answer r] := fun r =>
    .of_leads (leads_answer r).forget
  cases o with
  | post _ e => exact ⟨_, fun _ _ _ => rfl, (answers_post e).forget⟩
  | setState _ s =>
    exact ⟨_, fun _ _ _ => rfl, (answers_request (.setState s)).forget.append fun _ _ _ => answer _⟩
  | start _ => exact ⟨_, fun _ _ _ => rfl, _, _, leads_start.forget, rfl, rfl⟩
  | stop _ ms =>
    have stop : f.Answers false fun id => [.stop id ms] := ⟨_, _, leads_stop ms he, rfl, rfl⟩
    exact ⟨_, fun _ _ _ => rfl, stop.append fun _ _ _ => answer _⟩
  | reset _ => exact ⟨_, fun _ _ _ => rfl, (answers_reset he).append fun _ _ _ => answer _⟩
  | apiReset _ =>
    exact ⟨_, fun _ _ _ => rfl, (answers_request .reset).forget.append fun _ _ _ => answer _⟩
  | save _ => exact ⟨_, fun _ _ _ => rfl, .of_leads leads_save.forget⟩
  | removeState _ => exact ⟨_, fun _ _ _ => rfl, .of_leads leads_removeState.forget⟩
  | clearQueue _ => exact ⟨_, fun _ _ _ => rfl, _, _, leads_clearQueue.forget, rfl, rfl⟩
  | setVars _ vars =>
    exact ⟨_, fun _ _ _ => rfl, _, _, (leads_edit (.setVars vars)).forget, rfl, rfl⟩
  | _ => exact ⟨fun _ => [], fun _ _ _ => rfl, .nil⟩

end Figure

/-- An operation changes nothing of a free instance by itself, its start parameter apart. -/
theorem Machine.Free.onInstance {m : Machine} {id : Nat} {i : Instance} (F : m.Free id i) (o : Op) :
    ∃ p, (m.onInstance id i o).1.Free id { i with startParam := p } := by
  cases o with
  | setStartParam _ value =>
    refine ⟨value, ⟨⟨?_, F.unhooked, F.orderly.congr rfl⟩, F.unheld, F.settled⟩⟩
    simp only [Machine.onInstance, get?_modify_self, F.here]
    rfl
  | _ => exact ⟨i.startParam, F⟩

/-- An operation, called between turns on any free instance of the figure, is seen to do the same,
and leaves the same figure. -/
theorem Figure.call {f : Figure} (he : f.event = none) (o : Op) :
    ∃ s g, g.event = none ∧ g.program = f.program ∧ ∀ m id i, Machine.Free m id i → i.figure = f →
      ∃ m' j, m.Carries id (.call o) s m' ∧ m'.Free id j ∧ j.figure = g := by
  obtain ⟨l, hl, s, g, h, hge, hgp⟩ := answers_onInstance he o
  refine ⟨s, g, hge.trans he, hgp, fun m id i F e => ?_⟩
  obtain ⟨p, F'⟩ := F.onInstance o
  obtain ⟨m', j, r, go, F'', e', -⟩ := h _ id _ F' e [] (m.onInstance id i o).2.2
  refine ⟨m', j, ⟨(m.onInstance id i o).1, _, r, ?_, go⟩, F'', e'⟩
  simp only [Machine.begin?, F.here, Option.map_some, hl, List.append_nil]

end ScriptHost
