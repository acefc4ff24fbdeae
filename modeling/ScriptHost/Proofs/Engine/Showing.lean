import ScriptHost.Proofs.Engine.Delivery
import ScriptHost.Proofs.Engine.Turning

/-!
# What is shown of the executing event

Successive turns share one place for what was detected and for the name of the
event, and it is cleared at the end of a turn and by a stop that gives one up.
At any time it holds what the outstanding turn has taken, and nothing if the
turn has taken nothing yet or none is outstanding (`snapshot_follows_turn`).
-/

namespace ScriptHost

/-- The instance shows this event as the executing one, or none. The name of a reserved record is
not shown. -/
structure Instance.Shows (i : Instance) (e : Option Event) : Prop where
  detected : i.detected = (e.map (·.detected)).getD []
  current : i.currentEvent = e.bind fun e => if e.isSetState then none else some e.name

namespace Instance.Shows

variable {i j : Instance} {e : Option Event}

theorem congr (h : i.Shows e) (hd : j.detected = i.detected)
    (hc : j.currentEvent = i.currentEvent) : j.Shows e :=
  ⟨hd.trans h.detected, hc.trans h.current⟩

theorem clearSnapshot (i : Instance) : i.clearSnapshot.Shows none := ⟨rfl, rfl⟩

/-- Who takes an event while none is shown shows that one. -/
theorem take (h : i.Shows none) (e : Event) (q : Queue) : (i.take e q).Shows (some e) := by
  refine ⟨rfl, ?_⟩
  simp only [Instance.take, Option.bind_some]
  split
  · exact h.current
  · rfl

/-- What operations are told. -/
theorem answers (h : i.Shows e) (m : Machine) (id : Nat) (name : String) (index : Nat) :
    (m.onInstance id i (.showDetection name index)).2.2 =
        .detection (e.bind (·.detected[index]?))
          (((e.bind (·.detected[index]?)).map (·.key)).getD .nil) ∧
      i.info.current = e.bind fun e => if e.isSetState then none else some e.name := by
  have entry : i.detected[index]? = e.bind (·.detected[index]?) := by
    rw [h.detected]
    cases e <;> rfl
  exact ⟨by simp only [Machine.onInstance, entry], h.current⟩

end Instance.Shows

/-- The event that the outstanding turn of an instance has taken, of those taken by all turns. -/
def Instance.executing (i : Instance) (taken : List (Nat × Event)) : Option Event :=
  i.slot.current.bind fun turn => taken.lookup turn.ticket

theorem Instance.executing_eq_none {i : Instance} {l : List (Nat × Event)}
    (h : ∀ turn, i.slot.current = some turn → ∀ p ∈ l, p.1 ≠ turn.ticket) :
    i.executing l = none := by
  unfold executing
  cases hc : i.slot.current with
  | none => rfl
  | some turn =>
    exact List.lookup_eq_none_iff.mpr fun p hp => by simpa using (h turn hc p hp).symm

theorem Instance.executing_eq_some {i : Instance} {l : List (Nat × Event)} {turn : Turn} {e : Event}
    (nodup : (l.map (·.1)).Nodup) (hc : i.slot.current = some turn) (he : (turn.ticket, e) ∈ l) :
    i.executing l = some e := by
  rw [executing, hc]
  exact lookup_of_mem nodup he

namespace Section

variable {m : Machine} {a : Instr} {id : Nat} {i : Instance}

/-- An event is taken by the outstanding turn only. -/
theorem taken_of_not_owned (hi : m.get? id = some i)
    (h : ∀ ticket n, a = .takeTurn id ticket n → i.owns ticket = false) :
    taken id ⟨m, a⟩ = [] := by
  cases a with
  | takeTurn k ticket n =>
    by_cases hk : k = id
    · subst hk
      simp [taken, hi, h ticket n rfl]
    · simp [taken, hk]
  | _ => rfl

end Section

namespace System

variable {S T : System} {a : Instr} {rest : List Instr} {reply : Reply} {others : List Thread}
  {id : Nat} {i i' : Instance} {h : List Section}

/-- What turns have taken in the course of some sections. -/
abbrev takenBy (id : Nat) (h : List Section) : List (Nat × Event) := h.flatMap (Section.taken id)

/-- A turn that has taken its event is the instance's last or an earlier one. -/
theorem Delivered.ticket_le (D : Delivered id h S) (C : S.Coherent)
    (hi : S.machine.get? id = some i) : ∀ p ∈ takenBy id h, p.1 ≤ i.slot.lastTicket := by
  intro p hp
  obtain ⟨n, ⟨j, hj, rfl, ht⟩, -⟩ := D.spent p hp
  obtain ⟨s, hs, hle⟩ := C.booked.owners n j hj
  obtain rfl := Option.some.inj ((Machine.slot_of_get? hi).symm.trans hs)
  exact ht ▸ hle

/-- Who is to take an event for a turn is the first to do so. -/
theorem Delivered.untaken {ticket n : Nat} (D : Delivered id h S) (C : S.Coherent)
    (M : Moves S (.takeTurn id ticket n) rest reply others T) :
    ∀ p ∈ takenBy id h, p.1 ≠ ticket := by
  rintro p hp rfl
  obtain ⟨k, ⟨j, hj, ho, ht⟩, -, hk⟩ := D.spent p hp
  obtain ⟨⟨j', hj', ho', ht'⟩, -⟩ := M.fits C
  obtain rfl := C.booked.job_unique hj hj' (ho.trans ho'.symm) (ht.trans ht'.symm)
  exact hk (M.held_before.mpr (.inl rfl))

/-- A job that the pool gives back has taken no event. -/
theorem Delivered.not_cancelled {turn : Turn} (D : Delivered id h S) (C : S.Coherent)
    (hi : S.machine.get? id = some i) (hc : i.slot.current = some turn)
    (hcan : S.machine.canCancel turn.job = true) : ∀ p ∈ takenBy id h, p.1 ≠ turn.ticket := by
  rintro p hp he
  obtain ⟨j, hj, hq⟩ := Machine.queued_of_canCancel hcan
  obtain ⟨k, ⟨j', hj', ho', ht'⟩, started, -⟩ := D.spent p hp
  obtain ⟨j'', hj'', ho'', ht'', -⟩ := C.booked.outstanding id _ turn (Machine.slot_of_get? hi) hc
  obtain rfl := C.booked.job_unique hj' hj'' (ho'.trans ho''.symm) ((ht'.trans he).trans ht''.symm)
  exact Core.not_started hj hq started

/-- The turn that is outstanding takes its event, or finds none. -/
theorem Moves.takes {ticket n : Nat} (M : Moves S (.takeTurn id ticket n) rest reply others T)
    (hi : S.machine.get? id = some i) (ho : i.owns ticket = true) :
    Section.taken id ⟨S.machine, .takeTurn id ticket n⟩ = [] ∧
        T.machine.get? id = some i.release ∨
      ∃ e q, Section.taken id ⟨S.machine, .takeTurn id ticket n⟩ = [(ticket, e)] ∧
        T.machine.get? id = some (i.take e q) := by
  have self : ∀ f : Instance → Instance, (S.machine.modify id f).get? id = some (f i) := fun f => by
    rw [Machine.get?_modify_self, hi]
    rfl
  rw [M.machine]
  simp only [Instr.exec, Instr.leads, hi, Machine.takeTurn, ho, if_true]
  cases hp : i.slot.queue.pop? with
  | none =>
    have empty : i.slot.queue.events = [] := by
      unfold Queue.pop? at hp
      split at hp
      · assumption
      · cases hp
    exact .inl ⟨by simp [Section.taken, hi, empty], self _⟩
  | some p =>
    obtain ⟨e, q⟩ := p
    refine .inr ⟨e, q, by simp [Section.taken, hi, ho, Queue.pop?_eq_some hp], ?_⟩
    simp only
    split
    · unfold Machine.switchState
      split <;> exact self _
    · exact self _

/-- A turn that has ended is not the outstanding one. -/
theorem Moves.ended {ticket : Nat} (M : Moves S a rest reply others T) (C : S.Coherent)
    (ha : a.Ends id ticket) (hi : S.machine.get? id = some i)
    (hi' : T.machine.get? id = some i') : i'.owns ticket = false := by
  rcases ha with rfl | ⟨turn, rfl, ha⟩
  · have hs := Machine.slot_of_get? hi
    have hs' := Machine.slot_of_get? hi'
    rw [M.machine] at hs'
    simp only [Instr.exec, Instr.about, hi, Instr.plain] at hs'
    rw [Machine.core_finishTurn hi, Core.slots_revise hs, if_pos rfl] at hs'
    refine Bool.eq_false_iff.mpr fun ho => ?_
    obtain ⟨turn, hc, ht⟩ := Slot.owns_iff.mp ho
    exact Slot.ticket_ne_of_handOn (C.booked.ticket_le hs) (Option.some.inj hs' ▸ hc) ht.symm
  · exact M.given_up C ha hi hi'

/-- A turn that becomes outstanding has taken nothing. -/
theorem Moves.unseen {turn : Turn} (M : Moves S a rest reply others T) (C : S.Coherent)
    (D : Delivered id h S) (hi : S.machine.get? id = some i) (hi' : T.machine.get? id = some i')
    (hc' : i'.slot.current = some turn) (hc : i.slot.current ≠ some turn) :
    ∀ p ∈ takenBy id h, p.1 ≠ turn.ticket := by
  rintro p hp he
  obtain ⟨s, hs, -, renewed⟩ := (M.grows C).turns id _ (Machine.slot_of_get? hi)
  obtain rfl := Option.some.inj ((Machine.slot_of_get? hi').symm.trans hs)
  have new := (renewed turn hc').resolve_left hc
  have old := D.ticket_le C hi p hp
  omega

/-- Unless the outstanding turn takes its event, what is shown stays that turn's, or is cleared
for the next one. -/
theorem Moves.shows_executing (M : Moves S a rest reply others T) (C : S.Coherent)
    (D : Delivered id h S) (hi : S.machine.get? id = some i) (hi' : T.machine.get? id = some i')
    (shown : i.Shows (i.executing (takenBy id h)))
    (untaken : ∀ ticket n, a = .takeTurn id ticket n → i.owns ticket = false) :
    i'.Shows (i'.executing (takenBy id h)) := by
  obtain ⟨hd, hn⟩ : i'.detected = (a.alter id i).detected ∧
      i'.currentEvent = (a.alter id i).currentEvent := by
    obtain ⟨s, p, hg⟩ := M.get?_after hi
    cases hi'.symm.trans hg
    exact ⟨rfl, rfl⟩
  have nothing : (∀ turn, i'.slot.current = some turn → i.slot.current = some turn →
      ∀ p ∈ takenBy id h, p.1 ≠ turn.ticket) → i'.executing (takenBy id h) = none := fun old =>
    Instance.executing_eq_none fun turn hc' => by
      by_cases hc : i.slot.current = some turn
      · exact old turn hc' hc
      · exact M.unseen C D hi hi' hc' hc
  by_cases ends : ∃ ticket, i.owns ticket = true ∧ a.Ends id ticket
  · obtain ⟨ticket, ho, ha⟩ := ends
    have cleared : a.alter id i = i.clearSnapshot := by
      rcases ha with rfl | ⟨turn, rfl, rfl⟩ <;> simp [Instr.alter, Instr.change?, ho]
    rw [nothing fun turn hc' hc => ?_]
    · exact (Instance.Shows.clearSnapshot i).congr (hd.trans (congrArg _ cleared))
        (hn.trans (congrArg _ cleared))
    · have lost := M.ended C ha hi hi'
      rw [Slot.owns_unique ho (Slot.owns_iff.mpr ⟨turn, hc, rfl⟩)] at lost
      exact absurd (Slot.owns_iff.mpr ⟨turn, hc', rfl⟩) (Bool.eq_false_iff.mp lost)
  · obtain ⟨hn', hd'⟩ := (a.snapshot_alter id i).resolve_right <| by
      rintro ⟨ticket, ho, ⟨n, ha⟩ | ha⟩
      · exact Bool.false_ne_true ((untaken ticket n ha).symm.trans ho)
      · exact ends ⟨ticket, ho, ha⟩
    suffices i.Shows (i'.executing (takenBy id h)) from
      this.congr (hd.trans hd') (hn.trans hn')
    cases hc : i.slot.current with
    | none =>
      rw [nothing fun turn _ h => by cases hc.symm.trans h]
      simpa [Instance.executing, hc] using shown
    | some turn =>
      have owns : i.slot.owns turn.ticket = true := Slot.owns_iff.mpr ⟨turn, hc, rfl⟩
      rcases M.effect.owns (Machine.slot_of_get? hi) (Machine.slot_of_get? hi') owns with
        ho | ⟨n, ha⟩ | ha | ⟨ms, turn', -, hc', hcan⟩
      · obtain ⟨turn', hc', ht⟩ := Slot.owns_iff.mp ho
        have same : i'.executing (takenBy id h) = i.executing (takenBy id h) := by
          simp [Instance.executing, hc, hc', ht]
        exact same ▸ shown
      · exact absurd owns (Bool.eq_false_iff.mp (untaken _ n ha))
      · exact absurd ⟨_, owns, ha⟩ ends
      · have untaken : ∀ turn, i.slot.current = some turn →
            ∀ p ∈ takenBy id h, p.1 ≠ turn.ticket := fun turn h => by
          obtain rfl := Option.some.inj (hc'.symm.trans h)
          exact D.not_cancelled C hi hc' hcan
        rw [nothing fun turn _ => untaken turn]
        exact Instance.executing_eq_none untaken ▸ shown

/-- At any time an instance shows the event that its outstanding turn has taken. -/
theorem Life.shows_executing (H : Life h S) (hi : S.machine.get? id = some i) :
    i.Shows (i.executing (takenBy id h)) := by
  revert i
  refine H.induct_moves (P := fun h S => ∀ {i}, S.machine.get? id = some i →
    i.Shows (i.executing (takenBy id h))) ?_ ?_ ?_
  · intro m hm i hi
    simp [Machine.get?, hm.instances] at hi
  · exact fun h S T J ih i hi => ih ((J.get? id).symm.trans hi)
  · intro h S T a rest reply others H M ih i' hi'
    have D : Delivered id h S := H.delivered
    have snoc : takenBy id (h ++ [⟨S.machine, a⟩]) =
        takenBy id h ++ Section.taken id ⟨S.machine, a⟩ := by
      simp [takenBy]
    rw [snoc]
    cases hi : S.machine.get? id with
    | none =>
      rw [M.machine] at hi'
      obtain ⟨l, caps, -, rfl⟩ := Machine.get?_new reply hi hi'
      exact ⟨rfl, rfl⟩
    | some i =>
      by_cases own : ∃ ticket n, a = .takeTurn id ticket n ∧ i.owns ticket = true
      · obtain ⟨ticket, n, rfl, ho⟩ := own
        have first := D.untaken H.coherent M
        obtain ⟨turn, hc, rfl⟩ := Slot.owns_iff.mp ho
        have unshown : i.Shows none := by
          have := ih hi
          rwa [Instance.executing_eq_none fun turn' hc' => by
            obtain rfl := Option.some.inj (hc.symm.trans hc')
            exact first] at this
        rcases M.takes hi ho with ⟨ht, hg⟩ | ⟨e, q, ht, hg⟩
        · obtain rfl := Option.some.inj (hi'.symm.trans hg)
          exact unshown.congr rfl rfl
        · obtain rfl := Option.some.inj (hi'.symm.trans hg)
          have executing : (i.take e q).executing (takenBy id h ++ [(turn.ticket, e)]) =
              some e := by
            have unseen : (takenBy id h).lookup turn.ticket = none :=
              List.lookup_eq_none_iff.mpr fun p hp => by simpa using (first p hp).symm
            have hc' : (i.take e q).slot.current = some turn := hc
            simp [Instance.executing, hc', List.lookup_append, unseen]
          rw [ht, executing]
          exact unshown.take e q
      · have untaken : ∀ ticket n, a = .takeTurn id ticket n → i.owns ticket = false :=
          fun ticket n ha => Bool.eq_false_iff.mpr fun ho => own ⟨ticket, n, ha, ho⟩
        rw [Section.taken_of_not_owned hi untaken, List.append_nil]
        exact M.shows_executing H.coherent D hi hi' (ih hi) untaken

/-- At any time, whatever goes on inside waits, handlers and calls of the world: if no turn is
outstanding, nothing is detected at any index and no event is shown; if the outstanding turn has
taken an event, then what is detected is that event's, and its name is shown unless it is a
reserved record, and if it has taken none yet, nothing is shown. Nothing changes either but the
outstanding turn's taking its event or its end. -/
theorem snapshot_follows_turn (H : Life h S) (hi : S.machine.get? id = some i) :
    (i.slot.current = none → (∀ name index,
        (S.machine.onInstance id i (.showDetection name index)).2.2 = .detection none .nil) ∧
      i.info.current = none) ∧
    (∀ turn e, i.slot.current = some turn → (turn.ticket, e) ∈ h.flatMap (Section.taken id) →
      (∀ name index, (S.machine.onInstance id i (.showDetection name index)).2.2 =
        .detection e.detected[index]? ((e.detected[index]?.map (·.key)).getD .nil)) ∧
      i.info.current = if e.isSetState then none else some e.name) ∧
    (∀ turn, i.slot.current = some turn →
      (∀ e, (turn.ticket, e) ∉ h.flatMap (Section.taken id)) →
      i.detected = [] ∧ i.currentEvent = none) ∧
    ∀ l T i', S.Step l T → T.machine.get? id = some i' →
      i'.detected = i.detected ∧ i'.currentEvent = i.currentEvent ∨
        ∃ a turn, l = [⟨S.machine, a⟩] ∧ i.slot.current = some turn ∧
          ((∃ n, a = .takeTurn id turn.ticket n) ∨ a.Ends id turn.ticket) := by
  have shows := H.shows_executing hi
  refine ⟨fun hc => ?_, fun turn e hc he => ?_, fun turn hc hno => ?_, fun l T i' s hi' => ?_⟩
  · have nothing : i.Shows none := by simpa [Instance.executing, hc] using shows
    exact ⟨fun name index => (nothing.answers S.machine id name index).1, nothing.current⟩
  · have D : Delivered id h S := H.delivered
    rw [Instance.executing_eq_some D.tickets hc he] at shows
    exact ⟨fun name index => (shows.answers S.machine id name index).1, shows.current⟩
  · rw [Instance.executing_eq_none fun turn' hc' p hp he => ?_] at shows
    · exact ⟨shows.detected, shows.current⟩
    · obtain rfl := Option.some.inj (hc.symm.trans hc')
      exact hno p.2 (he ▸ hp)
  · rcases s.joins_or_moves with ⟨-, J⟩ | ⟨a, rest, reply, others, rfl, M⟩
    · cases hi'.symm.trans ((J.get? id).trans hi)
      exact .inl ⟨rfl, rfl⟩
    · obtain ⟨s, p, hg⟩ := M.get?_after hi
      cases hi'.symm.trans hg
      rcases a.snapshot_alter id i with ⟨hc, hd⟩ | ⟨ticket, ho, ha⟩
      · exact .inl ⟨hd, hc⟩
      · obtain ⟨turn, hc, rfl⟩ := Slot.owns_iff.mp ho
        exact .inr ⟨a, turn, rfl, hc, ha⟩

/-- A host in which a stop gives up a turn while its handler is stuck, the next turn has taken its
event meanwhile, and then the first handler ends. -/
def outlasted : List Section × System :=
  System.play 40 ⟨.bare true, []⟩
    [.call (.loadNew "a" 1 (.answering [("state_entry", [.park false])])), .call (.run 1),
      .call (.stop "a" 5), .call (.start "a"),
      .call (.post "a" { Event.plain "x" [] with detected := [default] }), .claim 2, .go 5,
      .call .release, .go 1]

theorem snapshot_follows_turn_outlasted : ∃ i turn e, outlasted.2.machine.get? 0 = some i ∧
    i.slot.current = some turn ∧ (turn.ticket, e) ∈ outlasted.1.flatMap (Section.taken 0) ∧
    (∃ s ∈ outlasted.1, s.instr = .finishTurn 0 1) ∧ turn.ticket = 2 ∧ e.name = "x" ∧
    (outlasted.2.machine.onInstance 0 i (.showDetection "a" 0)).2.2 =
      .detection e.detected[0]? ((e.detected[0]?.map (·.key)).getD .nil) ∧
    i.info.current = some e.name := by
  obtain ⟨i, turn, e, hi, hc, he, two, hx, hset⟩ : ∃ i turn e,
      outlasted.2.machine.get? 0 = some i ∧ i.slot.current = some turn ∧
      (turn.ticket, e) = (outlasted.1.flatMap (Section.taken 0)).get ⟨1, by decide⟩ ∧
      turn.ticket = 2 ∧ e.name = "x" ∧ e.isSetState = false :=
    ⟨_, _, _, rfl, rfl, rfl, rfl, rfl, rfl⟩
  have taken : (turn.ticket, e) ∈ outlasted.1.flatMap (Section.taken 0) := he ▸ List.get_mem _ _
  obtain ⟨-, live, -⟩ := snapshot_follows_turn (Life.play true 40 _) hi
  obtain ⟨detection, current⟩ := live turn e hc taken
  refine ⟨i, turn, e, hi, hc, taken, ?_, two, hx, detection "a" 0, ?_⟩
  · exact ⟨outlasted.1.get ⟨39, by decide⟩, List.get_mem _ _, rfl⟩
  · rw [current, hset]
    rfl

end System

end ScriptHost
