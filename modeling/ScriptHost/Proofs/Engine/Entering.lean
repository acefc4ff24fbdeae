import ScriptHost.Proofs.Engine.Delivery
import ScriptHost.Proofs.Engine.Turning

/-!
# Entering a handler

A turn that has taken its event looks at what was detected, waits for the
script, and then enters the handler; it does not look again whether it is still
the outstanding turn. A stop may give it up on the way. `handler_entered` says
when the handler is the live turn's, and when what it is handed is its own.
-/

namespace ScriptHost

namespace System

/-- In the course of the sections a stop has given up the turn, the outstanding one until then. -/
def GivenUp (h : List Section) (id ticket : Nat) : Prop :=
  ∃ s ∈ h, ∃ turn i, s.instr = .stopEnd id turn ∧ turn.ticket = ticket ∧
    s.machine.get? id = some i ∧ i.owns ticket = true

/-- The turn has looked at what was detected: it knows what was shown when it did, which is what
its own event brought unless the turn had been given up by then. -/
def Looked (h : List Section) (v : Invocation) : Prop :=
  ∃ before m w after i, h = before ++ ⟨m, .readDetected w⟩ :: after ∧ w.Same v ∧
    m.get? v.id = some i ∧ v.detected = i.detected ∧
    (¬ GivenUp before v.id v.ticket → v.detected = v.event.detected)

variable {h : List Section} {S T : System} {a b : Instr} {rest : List Instr} {reply : Reply}
  {others : List Thread} {v w : Invocation} {id ticket : Nat}

theorem GivenUp.append (g : GivenUp h id ticket) (l : List Section) :
    GivenUp (h ++ l) id ticket := by
  obtain ⟨s, hs, g⟩ := g
  exact ⟨s, List.mem_append_left _ hs, g⟩

theorem Looked.append (L : Looked h v) (l : List Section) : Looked (h ++ l) v := by
  obtain ⟨before, m, w, after, i, rfl, L⟩ := L
  exact ⟨before, m, w, after ++ l, i, by simp, L⟩

/-- A turn that has been given up is never again the outstanding one. -/
theorem Life.stale_of_givenUp (H : Life h S) (g : GivenUp h id ticket) :
    ∃ n, S.machine.core.Stale n id ticket := by
  obtain ⟨⟨m, a⟩, hs, turn, i, rfl, rfl, hi, ho⟩ := g
  obtain ⟨before, after, rfl⟩ := List.append_of_mem hs
  obtain ⟨U, V, rest, reply, others, HU, rfl, M, r⟩ := H.split
  have C := HU.coherent
  obtain ⟨current, hc, ht⟩ := Slot.owns_iff.mp ho
  obtain ⟨j, hj, hown, hticket, -⟩ :=
    C.booked.outstanding id _ current (Machine.slot_of_get? hi) hc
  obtain ⟨s, p, hi'⟩ := M.get?_after hi
  exact ⟨current.job, (M.coherent C).stale_run r
    ⟨(M.grows C).turn _ _ _ ⟨j, hj, hown, hticket.trans ht⟩, _, Machine.slot_of_get? hi',
      M.given_up C rfl hi hi'⟩⟩

/-- Whoever is at a turn is at the outstanding one, or the turn has been given up. -/
theorem Life.owned (H : Life h S) : ∀ b ∈ S.pending, ∀ v, b.serves? = some v →
    ∃ i, S.machine.get? v.id = some i ∧ (i.owns v.ticket = true ∨ GivenUp h v.id v.ticket) := by
  refine H.induct_moves (P := fun h S => ∀ b ∈ S.pending, ∀ v, b.serves? = some v →
    ∃ i, S.machine.get? v.id = some i ∧ (i.owns v.ticket = true ∨ GivenUp h v.id v.ticket))
    ?_ ?_ ?_
  · exact fun m _ b hb => (List.not_mem_nil hb).elim
  · intro h S T J ih b hb v hv
    rw [J.get?]
    exact ih b ((J.mem_pending (Instr.not_begins_of_serves hv)).mp hb) v hv
  · intro h S T a rest reply others H M ih b hb v hv
    -- A turn that somebody was at before may just have been given up.
    have kept : ∀ b₀ ∈ S.pending, ∀ w, b₀.serves? = some w →
        ∃ i, T.machine.get? w.id = some i ∧
          (i.owns w.ticket = true ∨ GivenUp (h ++ [⟨S.machine, a⟩]) w.id w.ticket) := by
      intro b₀ hb₀ w hw
      obtain ⟨i, hi, ho⟩ := ih b₀ hb₀ w hw
      obtain ⟨s, p, hi'⟩ := M.get?_after hi
      refine ⟨_, hi', ?_⟩
      rcases ho with ho | g
      · refine (M.owns_after H.coherent H.turning hb₀ hw hi hi' ho).imp_right ?_
        rintro ⟨turn, ht, rfl⟩
        exact ⟨_, List.mem_append_right _ (List.mem_singleton_self _), turn, i, rfl, ht, hi, ho⟩
      · exact .inr (g.append _)
    rcases M.mem_after.mp hb with hb | hb
    · rcases Machine.serves_next S.machine reply hb hv with
        ⟨w, hw, hs⟩ | ⟨n, i, queue, rfl, hi, ho, hp, hset, -⟩
      · exact hs.id ▸ hs.ticket ▸ kept a (M.mem_before.mpr (.inl rfl)) w hw
      · refine ⟨i.take v.event queue, ?_, .inl ho⟩
        rw [M.machine]
        simp [Instr.exec, Instr.leads, hi, Machine.takeTurn, ho, hp, hset,
          Machine.get?_modify_self]
    · exact kept b (M.mem_before.mpr (.inr hb)) v hv

/-- Whoever is at a turn is at the outstanding one if and only if the turn has not been given up. -/
theorem Life.owns_iff (H : Life h S) (hb : b ∈ S.pending) (hv : b.serves? = some v) :
    ∃ i, S.machine.get? v.id = some i ∧
      (i.owns v.ticket = true ↔ ¬ GivenUp h v.id v.ticket) := by
  obtain ⟨i, hi, ho⟩ := H.owned b hb v hv
  refine ⟨i, hi, fun ho g => ?_, ho.resolve_right⟩
  obtain ⟨n, -, s, hs, hno⟩ := H.stale_of_givenUp g
  obtain rfl : i.slot = s := Option.some.inj ((Machine.slot_of_get? hi).symm.trans hs)
  exact Bool.false_ne_true (hno.symm.trans ho)

/-- Whoever is about to lock the script, or has just locked it, has looked. -/
theorem Life.looked (H : Life h S) :
    ∀ v, .lockScript v ∈ S.pending ∨ .enter v ∈ S.pending → Looked h v := by
  refine H.induct_moves (P := fun h S => ∀ v, .lockScript v ∈ S.pending ∨ .enter v ∈ S.pending →
    Looked h v) ?_ ?_ ?_
  · exact fun m _ v hv => by rcases hv with hv | hv <;> cases hv
  · exact fun h S T J ih v hv =>
      ih v (hv.imp (J.mem_pending rfl).mp (J.mem_pending rfl).mp)
  · intro h S T a rest reply others H M ih v hv
    rw [M.mem_after, M.mem_after, or_or_or_comm] at hv
    rcases hv with (hv | hv) | hv
    · rcases (M.leadsTo hv).turnOnly rfl with
        ⟨_, _, _, -, he | ⟨w, he⟩⟩ | ⟨w, l, rfl, he⟩ | ⟨w, -, he⟩
      · cases he
      · cases he
      · cases he
        have pending : .readDetected w ∈ S.pending := M.mem_before.mpr (.inl rfl)
        obtain ⟨i, hi, ho⟩ := H.owns_iff pending rfl
        have hl : l = i.detected := by simpa [Instr.exec, Instr.leads, hi] using hv
        refine ⟨h, S.machine, w, [], i, rfl, ⟨rfl, rfl, rfl⟩, hi, hl, fun g => hl.trans ?_⟩
        exact (H.turning.shown _ pending w rfl i hi (ho.mpr g)).2
      · cases he
    · rcases (M.leadsTo hv).turnOnly rfl with
        ⟨_, _, _, -, he | ⟨w, he⟩⟩ | ⟨w, l, -, he⟩ | ⟨w, rfl, he⟩
      · cases he
      · cases he
      · cases he
      · cases he
        exact (ih v (.inl (M.mem_before.mpr (.inl rfl)))).append _
    · exact (ih v (hv.imp (fun hv => M.mem_before.mpr (.inr hv))
        fun hv => M.mem_before.mpr (.inr hv))).append _

/-- Whenever a handler is entered, its turn has taken the event that it is entered for. The turn is
still the outstanding one if and only if no stop has given it up on the way, and what the handler
is handed as detected is what its event brought, unless the turn had been given up before it
looked. -/
theorem handler_entered {before after : List Section} {m : Machine}
    (H : Life (before ++ ⟨m, .enter v⟩ :: after) S) :
    (v.ticket, v.event) ∈ before.flatMap (Section.taken v.id) ∧
    (∃ i, m.get? v.id = some i ∧
      (i.owns v.ticket = true ↔ ¬ GivenUp before v.id v.ticket)) ∧
    Looked before v := by
  obtain ⟨U, V, rest, reply, others, HU, rfl, M, -⟩ := H.split
  have pending : .enter v ∈ U.pending := M.mem_before.mpr (.inl rfl)
  refine ⟨?_, HU.owns_iff pending rfl, HU.looked v (.inr pending)⟩
  have due : (v.ticket, v.event) ∈ due v.id U.pending :=
    List.mem_filterMap.mpr ⟨_, pending, if_pos rfl⟩
  have D : Delivered v.id before U := HU.delivered
  exact (List.mem_filter.mp (D.calls.mem_iff.mpr (List.mem_append_right _ due))).1

/-- A host in which a turn takes its event while the handler of an earlier one is stuck, is given
up by a stop, and enters its handler once the script is let go. -/
def late : List Section × System :=
  System.play 40 ⟨.bare true, []⟩
    [.call (.loadNew "a" 1 (.answering [("state_entry", [.park false])])), .call (.run 1),
      .call (.stop "a" 5), .call (.start "a"), .call (.post "a" (.plain "x" [])), .claim 2, .go 5,
      .call (.stop "a" 5), .call .release, .go 1, .go 5]

theorem handler_entered_late : ∃ before m v after i, late.1 = before ++ ⟨m, .enter v⟩ :: after ∧
    v.event.name = "x" ∧ (v.ticket, v.event) ∈ before.flatMap (Section.taken v.id) ∧
    m.get? v.id = some i ∧ i.owns v.ticket = false ∧ GivenUp before v.id v.ticket ∧
    Looked before v := by
  obtain ⟨m, v, i, hs, hx, hi, lost⟩ : ∃ m v i, ⟨m, .enter v⟩ = late.1.get ⟨52, by decide⟩ ∧
      v.event.name = "x" ∧ m.get? v.id = some i ∧ i.owns v.ticket = false :=
    ⟨_, _, _, rfl, rfl, rfl, rfl⟩
  have split : late.1 = late.1.take 52 ++ ⟨m, .enter v⟩ :: late.1.drop 53 := by
    rw [hs, List.get_eq_getElem, ← List.drop_eq_getElem_cons, List.take_append_drop]
  obtain ⟨taken, ⟨j, hj, ho⟩, looked⟩ := handler_entered (split ▸ Life.play true 40 _)
  obtain rfl : i = j := Option.some.inj (hi.symm.trans hj)
  refine ⟨_, m, v, _, i, split, hx, taken, hi, lost, ?_, looked⟩
  exact Classical.byContradiction fun g => Bool.false_ne_true (lost.symm.trans (ho.mpr g))

end System

end ScriptHost
