import ScriptHost.Proofs.Engine.Demands
import ScriptHost.Proofs.Engine.Ending
import ScriptHost.Proofs.Engine.Showing

/-!
# What a stop guarantees

A stop that finds a turn at work waits for it, once, and if the turn is still
outstanding after that has it aborted, once. Nobody else can wait for the
instance meanwhile, as long as nobody starts it: it does not run, so further
stops have nothing to do, nothing new is queued, and no turn is asked for. When
the stop comes back no turn is outstanding, and of the events that were queued
those are left that no turn took and no clear discarded (`stop_guarantees`).
-/

namespace ScriptHost

/-! ## What is left of a stop -/

/-- What is left of a stop once it has begun. While it waits, there may be something else to do on
its thread first. -/
inductive Instr.StopLeft (id ms : Nat) : List Instr → Prop where
  | waits (turn : Turn) : StopLeft id ms [.stopWait id ms turn]
  | waited (l : List Instr) (turn : Turn) (forced : Option Bool) :
      StopLeft id ms (l ++ [.stopWaited id ms turn forced])
  | checks (turn : Turn) : StopLeft id ms [.stopCheck id ms turn]
  | forces (turn : Turn) : StopLeft id ms [.stopAbort id turn, .stopEnd id turn]
  | ends (turn : Turn) : StopLeft id ms [.stopEnd id turn]
  | past : StopLeft id ms []

namespace Instr.StopLeft

variable {id ms : Nat} {a : Instr} {l : List Instr}

theorem begun (m : Machine) (r : Reply) : StopLeft id ms ((Instr.stop id ms).exec m r).next := by
  simp only [Instr.exec, leads]
  split
  · split
    · exact .waits _
    · exact .past
  · exact .past

theorem next (L : StopLeft id ms (a :: l)) (m : Machine) (r : Reply) :
    StopLeft id ms ((a.exec m r).next ++ l) := by
  generalize e : a :: l = l₀ at L
  cases L with
  | waits turn =>
    cases e
    simp only [Instr.exec, List.append_nil]
    split
    · exact .waited [] turn none
    · exact .waited _ turn _
  | waited l' turn forced =>
    cases l' with
    | nil =>
      cases e
      simp only [Instr.exec, List.append_nil]
      split
      · exact .past
      · exact .checks turn
    | cons x l' =>
      rw [List.cons_append] at e
      obtain ⟨rfl, rfl⟩ := List.cons.inj e
      rw [← List.append_assoc]
      exact .waited _ turn forced
  | checks turn =>
    cases e
    simp only [Instr.exec, leads, List.append_nil]
    split
    · split
      · exact .forces turn
      · exact .past
    · exact .past
  | forces turn =>
    cases e
    rw [show ((Instr.stopAbort id turn).exec m r).next = [] from next_about]
    exact .ends turn
  | ends turn =>
    cases e
    rw [show ((Instr.stopEnd id turn).exec m r).next = [] from next_about]
    exact .past
  | past => cases e

/-- Apart from what is done first on its thread while it waits, all that is left of a stop comes to
an end by itself. -/
theorem efforts (L : StopLeft id ms l) : ∃ first left, l = first ++ left ∧
    (first = [] ∨ ∃ turn forced, left = [.stopWaited id ms turn forced]) ∧
    ∀ x ∈ left, 0 < x.effort := by
  cases L with
  | waited l turn forced => exact ⟨l, _, rfl, .inr ⟨turn, forced, rfl⟩, by simp [Instr.effort]⟩
  | _ => exact ⟨[], _, rfl, .inl rfl, by simp [Instr.effort]⟩

end Instr.StopLeft

/-! ## Loads -/

theorem Instr.opens?_of_bringsUp {b : Instr} {k id : Nat} (hb : b.bringsUp k = true)
    (h : b.opens? = some id) : k = id := by
  cases b with
  | refill => exact (of_decide_eq_true hb).symm.trans (Option.some.inj h)
  | recoverSize | recoverRead => cases hb
  | _ => cases h

theorem Instr.opens_finishLoad {k : Nat} {l : Loading} :
    (Instr.finishLoad k l).filterMap Instr.opens? = [] := by
  unfold Instr.finishLoad
  cases l.registers <;> rfl

/-- Sections of a load lead to one another; the first of them makes the instance. -/
theorem Effect.opens_next {m : Machine} {a b : Instr} {c : Core} {next : List Instr} {id : Nat}
    (e : Effect m a c next) (hb : b ∈ next) (h : b.opens? = some id) :
    a.opens? = some id ∨ id = m.core.slots.length := by
  have here : id ∈ next.filterMap Instr.opens? := List.mem_filterMap.mpr ⟨b, hb, h⟩
  have light : ∀ {l : List Instr}, (∀ b ∈ l, b.light = true) → l.filterMap Instr.opens? = [] :=
    fun hl => List.filterMap_eq_nil_iff.mpr fun b hb => by
      have := hl b hb
      cases b <;> first | rfl | cases this
  have loads : ∀ {k : Nat} {l : Loading} {f : List Instr}, (∀ b ∈ f, b.bringsUp k = true) →
      id ∈ (f ++ Instr.finishLoad k l).filterMap Instr.opens? → k = id := fun hf here => by
    rw [List.filterMap_append, Instr.opens_finishLoad, List.append_nil] at here
    obtain ⟨b, hb, h⟩ := List.mem_filterMap.mp here
    exact Instr.opens?_of_bringsUp (hf b hb) h
  cases e with
  | silent _ hl => cases light hl ▸ here
  | create => exact .inr (List.mem_singleton.mp here)
  | found => exact .inl (congrArg some (List.mem_singleton.mp here).symm)
  | @fresh _ k l ha =>
    obtain rfl := loads Instr.bringsUp_freshStart here
    rcases ha with rfl | rfl <;> exact .inl rfl
  | restore =>
    obtain rfl := loads Instr.bringsUp_restore here
    exact .inl rfl
  | unregister _ hl => cases light hl ▸ here
  | @reset _ running => cases running <;> cases here
  | wait =>
    rw [List.filterMap_append, light Instr.light_nested] at here
    cases here
  | takeSwitch _ _ _ _ hl =>
    rw [List.filterMap_append, light hl] at here
    cases here
  | _ => cases here

namespace System

section

variable {S T U V : System} {a : Instr} {rest : List Instr} {reply : Reply}
  {others : List Thread} {h l : List Section} {id ms : Nat} {i j : Instance}

/-! ## While an instance does not run -/

/-- What lasts while an instance does not run and nobody starts it. -/
theorem Run.lasts_halted {P : List Section → System → Prop} (r : Run S l T) (H : Life h S)
    (hi : S.machine.get? id = some i) (halted : i.slot.running = false)
    (unstarted : ∀ s ∈ l, s.instr ≠ .start id) (start : P [] S)
    (joins : ∀ g U V, U.Joins V → P g U → P g V)
    (moves : ∀ g U V a rest reply others j, Life (h ++ g) U → Moves U a rest reply others V →
      U.machine.get? id = some j → j.slot.running = false → a ≠ .start id → P g U →
      P (g ++ [⟨U.machine, a⟩]) V) :
    (∃ j, T.machine.get? id = some j ∧ j.slot.running = false) ∧ P l T := by
  refine r.lasts (P := fun g V =>
    (∃ j, V.machine.get? id = some j ∧ j.slot.running = false) ∧ P g V) H ⟨⟨i, hi, halted⟩, start⟩
    ?_ ?_
  · rintro g U V J ⟨⟨j, hj, hr⟩, hP⟩
    exact ⟨⟨j, (J.get? id).trans hj, hr⟩, joins g U V J hP⟩
  · rintro g U V a rest reply others HU M here ⟨⟨j, hj, hr⟩, hP⟩
    obtain ⟨s, p, hj'⟩ := M.get?_after hj
    have idle : ¬ U.machine.core.Runs id := by simp [Machine.runs_iff hj, hr]
    have stays := (stays_halted M.effect (M.fits HU.coherent) (unstarted _ here) hj idle).1
    exact ⟨⟨_, hj', Bool.eq_false_iff.mpr fun h => stays ((Machine.runs_iff hj').mpr h)⟩,
      moves g U V a rest reply others j HU M hj hr (unstarted _ here) hP⟩

theorem Run.halted (r : Run S l T) (H : Life h S) (hi : S.machine.get? id = some i)
    (halted : i.slot.running = false) (unstarted : ∀ s ∈ l, s.instr ≠ .start id) :
    ∃ j, T.machine.get? id = some j ∧ j.slot.running = false :=
  (r.lasts_halted (P := fun _ _ => True) H hi halted unstarted trivial (by intros; trivial)
    (by intros; trivial)).1

theorem Joins.awaiting (J : S.Joins T) : T.awaiting id = S.awaiting id := by
  obtain ⟨l, hl, begins⟩ := J.pending
  have none : l.filter (fun b => b.awaits? == some id) = [] :=
    List.filter_eq_nil_iff.mpr fun b hb => by
      have new := begins b hb
      cases b <;> first | (cases new; done) | simp [Instr.awaits?]
  rw [System.awaiting, hl, List.filter_append, none, List.append_nil]
  rfl

theorem awaits_snoc {g : List Section} {m : Machine} (ha : a.awaits? = some id) :
    (g ++ [(⟨m, a⟩ : Section)]).filter (Section.awaits id) =
      g.filter (Section.awaits id) ++ [⟨m, a⟩] := by
  simp [Section.awaits, ha]

theorem awaits_snoc_of_ne {g : List Section} {m : Machine} (ha : a.awaits? ≠ some id) :
    (g ++ [(⟨m, a⟩ : Section)]).filter (Section.awaits id) = g.filter (Section.awaits id) := by
  simp [Section.awaits, ha]

/-- Where nobody waits, nobody comes to do so. -/
theorem Run.unawaited (r : Run S l T) (H : Life h S) (hi : S.machine.get? id = some i)
    (halted : i.slot.running = false) (unstarted : ∀ s ∈ l, s.instr ≠ .start id)
    (none : S.awaiting id = []) : l.filter (Section.awaits id) = [] := by
  refine (r.lasts_halted (P := fun g V => V.awaiting id = [] ∧ g.filter (Section.awaits id) = [])
    H hi halted unstarted ⟨none, rfl⟩ ?_ ?_).2.2
  · rintro g U V J ⟨none, done⟩
    exact ⟨J.awaiting.trans none, done⟩
  · rintro g U V a rest reply others j - M hj hr - ⟨none, done⟩
    rcases M.awaiting hj hr with ⟨ha, same⟩ | ⟨-, p, before, -⟩
    · rw [none] at same
      exact ⟨same.eq_nil, (awaits_snoc_of_ne ha).trans done⟩
    · rw [none] at before
      cases before.symm.eq_nil

/-- The stop of a turn that is outstanding goes its way. -/
theorem Run.climbs {turn : Turn} (r : Run S l T) (H : Life h S)
    (hi : S.machine.get? id = some i) (halted : i.slot.running = false)
    (unstarted : ∀ s ∈ l, s.instr ≠ .start id)
    (begun : S.awaiting id = [.stopWait id ms turn]) :
    Climb id ms turn (l.filter (Section.awaits id)) (T.awaiting id) := by
  refine (r.lasts_halted (P := fun g V =>
    Climb id ms turn (g.filter (Section.awaits id)) (V.awaiting id)) H hi halted unstarted
    (begun ▸ .begun) ?_ ?_).2
  · intro g U V J C
    rwa [J.awaiting]
  · intro g U V a rest reply others j _ M hj hr _ C
    rcases M.awaiting hj hr with ⟨ha, same⟩ | ⟨ha, p, before, after⟩
    · rw [awaits_snoc_of_ne ha]
      rcases C.one with none | ⟨b, one⟩
      · rw [none] at same C
        exact same.eq_nil ▸ C
      · rw [one] at same C
        exact List.perm_singleton.mp same ▸ C
    · rw [awaits_snoc ha]
      obtain ⟨rfl, one⟩ : p = [] ∧ U.awaiting id = [a] := by
        rcases C.one with none | ⟨b, one⟩
        · cases (none ▸ before).symm.eq_nil
        · rw [one] at before ⊢
          obtain ⟨rfl, rfl⟩ := List.cons.inj (List.perm_singleton.mp before.symm)
          exact ⟨rfl, rfl⟩
      rw [one] at C
      rcases after with none | ⟨b, leads, next⟩
      · exact none.eq_nil ▸ .past C
      · exact List.perm_singleton.mp next ▸ .next C leads

/-! ## Turns and events meanwhile -/

theorem Step.unasked {n : Nat} {x : Job} (s : S.Step l T) (C : S.Coherent)
    (hj : T.machine.get? id = some j) (halted : j.slot.running = false)
    (hx : T.machine.job? n = some x) (own : x.owner = id) :
    ∃ y, S.machine.job? n = some y ∧ y.owner = id := by
  revert C hj hx
  refine s.cases_on (P := fun S _ T => S.Coherent → T.machine.get? id = some j →
    T.machine.job? n = some x → ∃ y, S.machine.job? n = some y ∧ y.owner = id) ?_ ?_ ?_ ?_
  · exact fun m ts o _ _ hx => ⟨x, hx, own⟩
  · intro m ts k y hy _ _ _ hx
    have rephased := Core.job?_rephase (c := m.core) (k := n) (p := .running)
      (Core.job?_pos (c := m.core) hy)
    obtain ⟨z, hz, rfl⟩ := Option.map_eq_some_iff.mp (rephased.symm.trans hx)
    refine ⟨z, hz, ?_⟩
    revert own
    split <;> exact fun h => h
  · exact fun m ts b _ _ _ hx => ⟨x, hx, own⟩
  · intro S T a rest reply others M C hj hx
    cases hy : S.machine.job? n with
    | none =>
      obtain ⟨j', hj', running, -⟩ := (M.asks C hy hx).after
      rw [own, hj] at hj'
      obtain rfl := Option.some.inj hj'
      cases halted.symm.trans running
    | some y =>
      obtain ⟨z, hz, same, -⟩ := (M.grows C).turn n y.owner y.ticket ⟨y, hy, rfl, rfl⟩
      obtain rfl : x = z := Option.some.inj (hx.symm.trans hz)
      exact ⟨y, rfl, same.symm.trans own⟩

/-- While an instance does not run, no turn is asked for in its name. -/
theorem Run.unasked {n : Nat} {x : Job} (r : Run S l T) (H : Life h S)
    (hi : S.machine.get? id = some i) (halted : i.slot.running = false)
    (unstarted : ∀ s ∈ l, s.instr ≠ .start id) (hx : T.machine.job? n = some x)
    (own : x.owner = id) : ∃ y, S.machine.job? n = some y ∧ y.owner = id := by
  induction r generalizing x with
  | refl => exact ⟨x, hx, own⟩
  | snoc r s ih =>
    obtain ⟨j, hj, hr⟩ := (Run.snoc r s).halted H hi halted unstarted
    obtain ⟨y, hy, own⟩ := s.unasked (H.run r).coherent hj hr hx own
    exact ih (fun s hs => unstarted s (List.mem_append_left _ hs)) hy own

theorem accepted_of_halted {m : Machine} (hi : m.get? id = some i)
    (halted : i.slot.running = false) (unopened : a.opens? ≠ some id) :
    Section.accepted id ⟨m, a⟩ = [] := by
  cases a with
  | post k e =>
    by_cases hk : k = id
    · subst hk
      simp [Section.accepted, hi, Machine.post_accepted_iff, halted]
    · exact Section.on_other hk
  | refill k q => exact Section.on_other fun hk => unopened (congrArg some hk)
  | _ => rfl

theorem Joins.queued (J : S.Joins T) : T.queued id = S.queued id := by
  rw [System.queued, J.get?]
  rfl

/-- Threads that come have nothing to do with a load under way, and the sections of an instance
that is there lead to no new load of it. -/
theorem Moves.unopened (M : Moves S a rest reply others T) (hi : S.machine.get? id = some i)
    (none : ∀ b ∈ S.pending, b.opens? ≠ some id) : ∀ b ∈ T.pending, b.opens? ≠ some id := by
  intro b hb ho
  rcases M.mem_after.mp hb with hb | hb
  · rcases (effect_exec S.machine reply a).opens_next hb ho with ha | rfl
    · exact none a (M.mem_before.mpr (.inl rfl)) ha
    · exact Nat.lt_irrefl _ (List.getElem?_eq_some_iff.mp (Machine.slot_of_get? hi)).1
  · exact none b (M.mem_before.mpr (.inr hb)) ho

/-- While an instance does not run, and is not being loaded, its queue holds what it held, in that
order, without what its turns have taken and what has been discarded then. -/
theorem Run.leaves_queued (r : Run S l T) (H : Life h S) (hi : S.machine.get? id = some i)
    (halted : i.slot.running = false) (unstarted : ∀ s ∈ l, s.instr ≠ .start id)
    (unopened : ∀ b ∈ S.pending, b.opens? ≠ some id) :
    l.flatMap (Section.accepted id) = [] ∧
    (l.flatMap (Section.taken id)).map (·.2) ++ l.flatMap (Section.discarded id) ++ T.queued id =
      S.queued id := by
  have law := (r.lasts_halted (P := fun g V => (∀ b ∈ V.pending, b.opens? ≠ some id) ∧
    g.flatMap (Section.accepted id) = [] ∧
    (g.flatMap (Section.discarded id) = [] ∨ V.queued id = []) ∧
    (g.flatMap (Section.taken id)).map (·.2) ++ g.flatMap (Section.discarded id) ++ V.queued id =
      S.queued id) H hi halted unstarted ⟨unopened, rfl, .inl rfl, rfl⟩ ?_ ?_).2
  · exact ⟨law.2.1, law.2.2.2⟩
  · rintro g U V J ⟨unopened, none, cleared, order⟩
    refine ⟨fun b hb ho => ?_, none, J.queued ▸ cleared, J.queued ▸ order⟩
    have later : b.begins = false := by cases b <;> first | rfl | cases ho
    exact unopened b ((J.mem_pending later).mp hb) ho
  · rintro g U V a rest reply others j HU M hj hr - ⟨unopened, none, cleared, order⟩
    have refused := accepted_of_halted hj hr (unopened a (M.mem_before.mpr (.inl rfl)))
    simp only [List.flatMap_append, List.flatMap_singleton, List.map_append, none, refused]
    refine ⟨M.unopened hj unopened, rfl, ?_⟩
    rcases M.carries HU.coherent id with ⟨kept, carried⟩ | ⟨all, empty, untaken, -⟩
    · rw [refused, List.append_nil] at carried
      rw [kept, List.append_nil]
      rcases cleared with undiscarded | empty
      · refine ⟨.inl undiscarded, ?_⟩
        rw [undiscarded, List.append_nil, ← carried] at order
        rw [undiscarded, List.append_nil, List.append_assoc]
        exact order
      · rw [empty] at carried order
        obtain ⟨untaken, empty⟩ := List.append_eq_nil_iff.mp carried
        rw [untaken, empty]
        exact ⟨.inr rfl, by simpa using order⟩
    · rw [all, empty, untaken]
      exact ⟨.inr rfl, by simpa using order⟩

/-- The same of an instance of which no turn is outstanding, which may be being loaded. -/
theorem Run.leaves_queued_idle (r : Run S l T) (H : Life h S) (hi : S.machine.get? id = some i)
    (halted : i.slot.running = false) (unstarted : ∀ s ∈ l, s.instr ≠ .start id)
    (idle : i.slot.current = none) :
    l.flatMap (Section.taken id) = [] ∧
    l.flatMap (Section.discarded id) ++ T.queued id =
      S.queued id ++ l.flatMap (Section.accepted id) := by
  have none : ∀ turn, ¬ S.machine.core.Drains id turn := by
    rintro turn ⟨s, hs, -, hc⟩
    obtain rfl := Option.some.inj (hs.symm.trans (Machine.slot_of_get? hi))
    cases idle.symm.trans hc
  have law := (r.lasts_halted (P := fun g V => (∀ turn, ¬ V.machine.core.Drains id turn) ∧
    g.flatMap (Section.taken id) = [] ∧
    g.flatMap (Section.discarded id) ++ V.queued id =
      S.queued id ++ g.flatMap (Section.accepted id)) H hi halted unstarted
    ⟨none, rfl, by simp⟩ ?_ ?_).2
  · exact law.2
  · rintro g U V J ⟨none, law⟩
    refine ⟨fun turn hd => none turn ?_, J.queued ▸ law⟩
    rwa [Core.Drains, J.slots] at hd
  · rintro g U V a rest reply others j HU M hj hr ha ⟨none, untaken, order⟩
    have idle : ¬ U.machine.core.Runs id := by simp [Machine.runs_iff hj, hr]
    have undrained := (stays_halted M.effect (M.fits HU.coherent) ha hj idle).2
    have taken : Section.taken id ⟨U.machine, a⟩ = [] := by
      refine Section.taken_of_not_owned hj fun ticket n _ => Bool.eq_false_iff.mpr fun ho => ?_
      obtain ⟨turn, hc, -⟩ := Slot.owns_iff.mp ho
      exact none turn ⟨_, Machine.slot_of_get? hj, hr, hc⟩
    simp only [List.flatMap_append, List.flatMap_singleton, untaken, taken]
    refine ⟨fun turn hd => none turn (undrained turn hd), rfl, ?_⟩
    rcases M.carries HU.coherent id with ⟨kept, carried⟩ | ⟨all, empty, -, refused⟩
    · rw [taken, List.map_nil, List.nil_append] at carried
      rw [kept, carried, List.append_nil, ← List.append_assoc, order, List.append_assoc]
    · rw [all, empty, refused, List.append_nil, List.append_nil]
      exact order

/-! ## The stop comes back -/

/-- The stop is under way, or the thread has been back on the way; anyway no turn is outstanding
for which it does not wait. -/
theorem Run.stop_returns {k : Nat} {left : List Instr} {r₀ : Reply} (r : Run S l T)
    (H : Life h S) (hk : S.threads[k]? = some ⟨left ++ rest, r₀⟩) (L : Instr.StopLeft id ms left)
    (w : Waiting id left S) (honest : ∀ s ∈ l, s.honest = true)
    (unstarted : ∀ s ∈ l, s.instr ≠ .start id) :
    (∃ left r, T.threads[k]? = some ⟨left ++ rest, r⟩ ∧ Instr.StopLeft id ms left ∧
      Waiting id left T) ∨
    (∃ g g' V r, l = g ++ g' ∧ Run S g V ∧ Run V g' T ∧ V.threads[k]? = some ⟨rest, r⟩) ∧
      Waiting id [] T := by
  induction r with
  | refl => exact .inl ⟨left, r₀, hk, L, w⟩
  | @snoc g l V W rV s ih =>
    have C := (H.run rV).coherent
    have honest' := fun s hs => honest s (List.mem_append_right g hs)
    have unstarted' := fun s hs => unstarted s (List.mem_append_right g hs)
    rcases ih (fun s hs => honest s (List.mem_append_left _ hs))
      (fun s hs => unstarted s (List.mem_append_left _ hs)) with
      ⟨left, r₁, hk, L, w⟩ | ⟨⟨g₁, g₂, X, r₁, rfl, r₁₂, r₂₃, hk⟩, w⟩
    · rcases s.thread hk with hk' | ⟨a, rest', ha, rfl, hW, hk'⟩
      · exact .inl ⟨left, r₁, hk', L, w.others C s unstarted'⟩
      · cases left with
        | nil =>
          exact .inr ⟨⟨g, _, V, r₁, rfl, rV, .snoc .refl s, hk⟩, w.others C s unstarted'⟩
        | cons b left =>
          have F := ha ▸ C.agendas _ (List.mem_of_getElem? hk)
          rw [List.cons_append] at ha
          obtain ⟨rfl, rfl⟩ := List.cons.inj ha
          rw [← List.append_assoc] at hk'
          exact .inl ⟨_, _, hk', L.next _ _, w.own C F.1 hW
            (unstarted' _ (List.mem_singleton_self _)) (honest' _ (List.mem_singleton_self _))⟩
    · exact .inr ⟨⟨g₁, g₂ ++ l, X, r₁, List.append_assoc .., r₁₂, .snoc r₂₃ s, hk⟩,
        w.others C s unstarted'⟩

/-- When a stop is over no turn is outstanding, and nothing is shown of an event. -/
theorem Life.at_rest (H : Life h S) (hi : S.machine.get? id = some i) (w : Waiting id [] S) :
    i.slot.current = none ∧ i.detected = [] ∧ i.currentEvent = none := by
  obtain ⟨i', hi', -, idle⟩ := w.over
  obtain rfl := Option.some.inj (hi.symm.trans hi')
  have shows := H.shows_executing hi
  rw [Instance.executing, idle] at shows
  exact ⟨idle, shows.detected, shows.current⟩

/-! ## The first section -/

theorem Life.undrained (H : Life h S) (honest : ∀ s ∈ h, s.honest = true)
    (alone : ∀ b ∈ S.pending, ∀ turn, b.stops? ≠ some (id, turn)) (turn : Turn) :
    ¬ S.machine.core.Drains id turn := fun hd => by
  obtain ⟨b, hb, stops⟩ := H.draining honest id turn hd
  exact alone b hb turn stops

theorem Moves.stop_halts (M : Moves S (.stop id ms) rest reply others T)
    (hi : S.machine.get? id = some i) :
    ∃ j, T.machine.get? id = some j ∧ j.slot.running = false := by
  obtain ⟨s, p, hj⟩ := M.get?_after hi
  exact ⟨_, hj, Bool.eq_false_iff.mpr fun h =>
    M.effect.not_runs_of_stop ((Machine.runs_iff hj).mpr h)⟩

theorem Moves.stop_queued (M : Moves S (.stop id ms) rest reply others T) (C : S.Coherent) :
    T.queued id = S.queued id := by
  rcases M.carries C id with ⟨-, carried⟩ | ⟨all, empty, -⟩
  · exact carried.trans (List.append_nil _)
  · exact empty.trans all

theorem Coherent.unopened (C : S.Coherent) (hi : S.machine.get? id = some i)
    (running : i.slot.running = true) : ∀ b ∈ S.pending, b.opens? ≠ some id := by
  intro b hb ho
  obtain ⟨t, ht, hb⟩ := mem_pending.mp hb
  obtain ⟨later, -, F⟩ := (C.agendas t ht).of_mem hb
  have halted : S.machine.core.Halted id := by
    cases b with
    | recoverSize | recoverRead => exact Option.some.inj ho ▸ F
    | refill => exact Option.some.inj ho ▸ F.1
    | _ => cases ho
  obtain ⟨s, hs, hr⟩ := halted
  obtain rfl := Option.some.inj ((Machine.slot_of_get? hi).symm.trans hs)
  cases hr.symm.trans running

theorem waits_of_begins {k : Nat} {r₀ : Reply} {m : Machine} {t : Thread}
    (begins : Thread.step? S.machine ⟨.stop id ms :: rest, r₀⟩ = some (m, t))
    (hi : S.machine.get? id = some i) (undrained : ∀ turn, ¬ S.machine.core.Drains id turn) :
    ∃ left r, t = ⟨left ++ rest, r⟩ ∧ Instr.StopLeft id ms left ∧
      Waiting id left ⟨m, S.threads.set k t⟩ := by
  obtain ⟨a, rest₀, ha, -, rfl, rfl⟩ := Thread.step?_eq_some begins
  obtain ⟨rfl, rfl⟩ := List.cons.inj ha
  exact ⟨_, _, rfl, .begun _ _, .of_stop hi undrained rfl (List.Subset.refl _)⟩

/-- What becomes of the queue of an instance that is stopped. -/
theorem Run.stop_leaves_queued (r : Run T l U) (M : Moves S (.stop id ms) rest reply others T)
    (HS : Life h S) (H : Life (h ++ [⟨S.machine, .stop id ms⟩]) T)
    (hi : S.machine.get? id = some i) (undrained : ∀ turn, ¬ S.machine.core.Drains id turn)
    (unstarted : ∀ s ∈ l, s.instr ≠ .start id) :
    (l.flatMap (Section.taken id)).map (·.2) ++ l.flatMap (Section.discarded id) ++ U.queued id =
        S.queued id ++ l.flatMap (Section.accepted id) ∧
      (i.slot.running = true → l.flatMap (Section.accepted id) = []) := by
  obtain ⟨j, hj, halted⟩ := M.stop_halts hi
  rw [← M.stop_queued HS.coherent]
  cases running : i.slot.running with
  | true =>
    have unopened := M.unopened hi (HS.coherent.unopened hi running)
    obtain ⟨refused, order⟩ := r.leaves_queued H hj halted unstarted unopened
    rw [refused, List.append_nil]
    exact ⟨order, fun _ => rfl⟩
  | false =>
    have idle : j.slot.current = none := by
      refine Option.eq_none_iff_forall_ne_some.mpr fun turn hc => ?_
      rcases M.effect.drains (M.fits HS.coherent) ⟨_, Machine.slot_of_get? hj, halted, hc⟩ with
        before | ⟨ms', same, waits⟩
      · exact undrained turn before
      · cases same
        have runs := M.effect.runs_of_awaited waits
        cases running.symm.trans ((Machine.runs_iff hi).mp runs)
    obtain ⟨untaken, order⟩ := r.leaves_queued_idle H hj halted unstarted idle
    rw [untaken, List.map_nil, List.nil_append]
    exact ⟨order, nofun⟩

/-- What a stop guarantees that begins while no other stop of the instance is under way, whatever
goes on until `T`, if nobody starts the instance and no wait lies. It has the pool wait once at
most, with its own time limit, and abort once at most: both for the turn that was outstanding when
it began, and the latter only if that wait was in vain, the turn was outstanding after it, and the
script was not deleting its entity. No turn is asked for. The instance does not run, and its queue
holds the events that it held and that no turn has taken and no clear discarded, in their order,
and then what a load has put there. Either the stop has something left to do, which comes to an end
by itself once its wait has; or it has come back, and no turn is outstanding and nothing is shown of
an event. Who has called it by name is answered yes. -/
theorem stop_guarantees {k : Nat} {r₀ : Reply} {m : Machine} {t : Thread} (H : Life h S)
    (hk : S.threads[k]? = some ⟨.stop id ms :: rest, r₀⟩) (hi : S.machine.get? id = some i)
    (alone : ∀ b ∈ S.pending, ∀ turn, b.stops? ≠ some (id, turn))
    (begins : Thread.step? S.machine ⟨.stop id ms :: rest, r₀⟩ = some (m, t))
    (r : Run ⟨m, S.threads.set k t⟩ l T) (honest : ∀ s ∈ h ++ l, s.honest = true)
    (unstarted : ∀ s ∈ l, s.instr ≠ .start id) :
    (l.flatMap (Section.demands id) = [] ∨
      ∃ turn, i.slot.running = true ∧ i.slot.current = some turn ∧
        (l.flatMap (Section.demands id) = [.wait turn.job ms] ∨
        l.flatMap (Section.demands id) = [.wait turn.job ms, .abort turn.job] ∧
          ∃ n₁ n₂ n₃ n₄ forced i₃ i₄, [⟨n₁, .stopWait id ms turn⟩,
              ⟨n₂, .stopWaited id ms turn forced⟩, ⟨n₃, .stopCheck id ms turn⟩,
              ⟨n₄, .stopAbort id turn⟩].Sublist l ∧
            forced.getD (n₂.finished turn.job) = false ∧
            n₃.get? id = some i₃ ∧ i₃.owns turn.ticket = true ∧
            n₄.get? id = some i₄ ∧ i₄.selfDeleting = false)) ∧
    (∀ n x, T.machine.job? n = some x → x.owner = id → ∃ y, S.machine.job? n = some y) ∧
    (∃ j, T.machine.get? id = some j ∧ j.slot.running = false ∧
      (l.flatMap (Section.taken id)).map (·.2) ++ l.flatMap (Section.discarded id) ++
          j.slot.queue.events =
        i.slot.queue.events ++ l.flatMap (Section.accepted id) ∧
      (i.slot.running = true → l.flatMap (Section.accepted id) = []) ∧
      ((∃ first left r₁, T.threads[k]? = some ⟨first ++ (left ++ rest), r₁⟩ ∧ left ≠ [] ∧
          (first = [] ∨ ∃ turn forced, left = [.stopWaited id ms turn forced]) ∧
          ∀ (n : Machine) r, n.hooks = ([], [], []) →
            ∃ fuel n' r', Thread.run fuel n ⟨left ++ rest, r⟩ = (n', ⟨rest, r'⟩)) ∨
        (∃ g g' V r₁, l = g ++ g' ∧ Run ⟨m, S.threads.set k t⟩ g V ∧ Run V g' T ∧
          V.threads[k]? = some ⟨rest, r₁⟩) ∧
        j.slot.current = none ∧ j.detected = [] ∧ j.currentEvent = none)) ∧
    ∀ name, S.machine.named? name = some id →
      S.machine.perform (.stop name ms) =
        (S.machine, [.stop id ms, .answer (.flag true)], .nothing) := by
  have before : ∀ s ∈ h, s.honest = true := fun s hs => honest s (List.mem_append_left _ hs)
  have after : ∀ s ∈ l, s.honest = true := fun s hs => honest s (List.mem_append_right _ hs)
  have undrained := H.undrained before alone
  have HU := H.run (.snoc .refl (Step.move hk rfl begins))
  obtain ⟨rest', others, M⟩ := Moves.of_move hk rfl begins
  obtain ⟨j₀, hj₀, halted⟩ := M.stop_halts hi
  obtain ⟨order, refused⟩ := r.stop_leaves_queued M H HU hi undrained unstarted
  obtain ⟨j, hj, stopped⟩ := r.halted HU hj₀ halted unstarted
  rw [queued_of_get? hj, queued_of_get? hi] at order
  refine ⟨?_, ?_, ⟨j, hj, stopped, order, refused, ?_⟩, ?_⟩
  · rcases M.begun hi (H.unawaited alone) with none | ⟨turn, running, outstanding, waits⟩
    · left
      rw [Section.flatMap_demands, r.unawaited HU hj₀ halted unstarted none]
      rfl
    · refine (r.climbs HU hj₀ halted unstarted waits).asked.imp_right fun asked => ?_
      exact ⟨turn, running, outstanding, asked⟩
  · intro n x hx own
    obtain ⟨y, hy, own⟩ := r.unasked HU hj₀ halted unstarted hx own
    obtain ⟨z, hz, -⟩ := (Step.move hk rfl begins).unasked H.coherent hj₀ halted hy own
    exact ⟨z, hz⟩
  · obtain ⟨left₀, r₁, rfl, L₀, w₀⟩ := waits_of_begins (k := k) begins hi undrained
    have here : (⟨m, S.threads.set k ⟨left₀ ++ rest, r₁⟩⟩ : System).threads[k]? =
        some ⟨left₀ ++ rest, r₁⟩ := List.getElem?_set_self (List.getElem?_eq_some_iff.mp hk).1
    rcases r.stop_returns HU here L₀ w₀ after unstarted with
      ⟨left, r₁, hT, L, w⟩ | ⟨back, w⟩
    · cases left with
      | nil =>
        exact .inr ⟨⟨l, [], T, r₁, (List.append_nil l).symm, r, .refl, hT⟩,
          (HU.run r).at_rest hj w⟩
      | cons b left =>
        obtain ⟨first, left', e, own, efforts⟩ := L.efforts
        rw [e, List.append_assoc] at hT
        refine .inl ⟨first, left', r₁, hT, ?_, own, fun n r quiet =>
          Thread.passes_of_effort quiet efforts⟩
        rintro rfl
        rcases own with rfl | ⟨turn, forced, none⟩
        · cases e
        · cases none
    · exact .inr ⟨back, (HU.run r).at_rest hj w⟩
  · intro name named
    simp only [Machine.perform, Machine.target?, named, hi]
    rfl

/-- A host in which a handler is stuck, nothing but an interrupt can end it, and an event is queued
behind it. -/
def overrun : List Section × System := System.play 60 ⟨.bare true, []⟩
  [.call (.loadNew "a" 1 (.answering [("state_entry", [.park true])])), .claim 1, .go 1,
    .call (.post "a" (.plain "x" []))]

/-- A stop has been called. -/
def stopCalled : List Section × System := System.play 1 overrun.2 [.call (.stop "a" 5)]

/-- It has begun. -/
def stopBegun : List Section × System := System.play 1 stopCalled.2 [.go 3]

/-- While it waits another event is posted, and there is another stop; then it comes back, and the
handler ends. -/
def stopDone : List Section × System := System.play 60 stopBegun.2
  [.call (.post "a" (.plain "y" [])), .call (.stop "a" 9), .go 3, .go 1]

theorem stop_guarantees_overrun :
    stopDone.1.flatMap (Section.demands 0) = [.wait 1 5, .abort 1] ∧
    ∃ j, stopDone.2.machine.get? 0 = some j ∧ j.slot.running = false ∧ j.slot.current = none ∧
      j.slot.queue.events.map Event.name = ["x"] ∧ j.detected = [] ∧ j.currentEvent = none := by
  obtain ⟨r₀, m, t, i, hk, begins, begun, hi, queued⟩ : ∃ r₀ m t i,
      stopCalled.2.threads[3]? = some ⟨[.stop 0 5, .answer (.flag true)], r₀⟩ ∧
      Thread.step? stopCalled.2.machine ⟨[.stop 0 5, .answer (.flag true)], r₀⟩ = some (m, t) ∧
      stopBegun.2 = ⟨m, stopCalled.2.threads.set 3 t⟩ ∧
      stopCalled.2.machine.get? 0 = some i ∧ i.slot.queue.events.map Event.name = ["x"] :=
    ⟨_, _, _, _, rfl, rfl, rfl, rfl, rfl⟩
  have H : Life (overrun.1 ++ stopCalled.1) stopCalled.2 :=
    (Life.play true 60 _).run (Run.play 1 _ _)
  have r : Run stopBegun.2 stopDone.1 stopDone.2 := Run.play 60 _ _
  rw [begun] at r
  have alone : stopCalled.2.pending.filterMap Instr.stops? = [] := rfl
  have honest : (overrun.1 ++ stopCalled.1 ++ stopDone.1).all (·.honest) = true := by decide
  have unstarted : stopDone.1.all
      (fun s => match s.instr with | .start _ => false | _ => true) = true := rfl
  obtain ⟨-, -, ⟨j, hj, halted, order, -, rest⟩, -⟩ := stop_guarantees H hk hi
    (fun b hb turn hs => List.not_mem_nil (alone ▸ List.mem_filterMap.mpr ⟨b, hb, hs⟩)) begins r
    (List.all_eq_true.mp honest)
    (fun s hs he => by simpa [he] using List.all_eq_true.mp unstarted s hs)
  refine ⟨rfl, j, hj, halted, ?_⟩
  rcases rest with ⟨first, left, r₁, hT, some, -⟩ | ⟨-, idle, detected, shown⟩
  · have back : stopDone.2.threads[3]? = Option.some ⟨[], .flag true⟩ := rfl
    rw [back] at hT
    have none := congrArg Thread.agenda (Option.some.inj hT)
    exact absurd (List.append_eq_nil_iff.mp none.symm).2 (by simp)
  · refine ⟨idle, ?_, detected, shown⟩
    have untaken : stopDone.1.flatMap (Section.taken 0) = [] := rfl
    have undiscarded : stopDone.1.flatMap (Section.discarded 0) = [] := rfl
    have refused : stopDone.1.flatMap (Section.accepted 0) = [] := rfl
    simp only [untaken, undiscarded, refused, List.map_nil, List.nil_append,
      List.append_nil] at order
    rw [order]
    exact queued

end

end System

end ScriptHost
