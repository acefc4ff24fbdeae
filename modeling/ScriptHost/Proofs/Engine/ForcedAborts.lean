import ScriptHost.Proofs.Engine.Undisturbed

/-!
# Forced aborts

A stop asks the pool to abort a turn after it has waited for it in vain and has
found it still outstanding, unless the script is deleting its own entity. That
the script does is a flag which goes up when a handler asks for the deletion,
and it is never taken down, whatever becomes of the deletion. So one
self-delete, even one that failed, has all later stops of the instance withhold
their aborts (`abort_withheld_iff`).
-/

namespace ScriptHost

/-! ## The course of a stop -/

namespace Instr

/-- The instance for a turn of which a stop waits, or whose turn it is about to force to end. -/
def awaits? : Instr → Option Nat
  | .stopWait id _ _ | .stopWaited id _ _ _ | .stopCheck id _ _ | .stopAbort id _ => some id
  | _ => none

theorem awaits?_of_bringsUp {id : Nat} {a : Instr} (h : a.bringsUp id = true) :
    a.awaits? = none := by
  cases a <;> first | rfl | cases h

/-- One section of a stop leads to another. -/
inductive StopsOn (m : Machine) : Instr → Instr → Prop where
  | waits {id ms : Nat} {turn : Turn} {s : Slot} : m.core.slots[id]? = some s →
      s.running = true → s.current = some turn → StopsOn m (.stop id ms) (.stopWait id ms turn)
  | waited {id ms : Nat} {turn : Turn} {forced : Option Bool} :
      StopsOn m (.stopWait id ms turn) (.stopWaited id ms turn forced)
  | overdue {id ms : Nat} {turn : Turn} {forced : Option Bool} :
      forced.getD (m.finished turn.job) = false →
      StopsOn m (.stopWaited id ms turn forced) (.stopCheck id ms turn)
  | forces {id ms : Nat} {turn : Turn} {s : Slot} : m.core.slots[id]? = some s →
      s.owns turn.ticket = true → StopsOn m (.stopCheck id ms turn) (.stopAbort id turn)

end Instr

section Effect

variable {m : Machine} {a b : Instr} {c : Core} {next : List Instr} {id : Nat}

/-- A section leads to one more of a stop at most, and then it is the stop's before. -/
theorem Effect.awaits_next (e : Effect m a c next) : next.filter (·.awaits?.isSome) = [] ∨
    ∃ b, next.filter (·.awaits?.isSome) = [b] ∧ a.StopsOn m b := by
  have up : ∀ {k : Nat} {l : List Instr}, (∀ b ∈ l, b.bringsUp k = true) →
      l.filter (·.awaits?.isSome) = [] := fun h =>
    List.filter_eq_nil_iff.mpr fun b hb => by simp [Instr.awaits?_of_bringsUp (h b hb)]
  have light : ∀ {l : List Instr}, (∀ b ∈ l, b.light = true) →
      l.filter (·.awaits?.isSome) = [] :=
    fun h => @up 0 _ fun b hb => Instr.bringsUp_of_light 0 (h b hb)
  have finish : ∀ {k : Nat} {l : Loading},
      (Instr.finishLoad k l).filter (·.awaits?.isSome) = [] :=
    fun {k l} => by unfold Instr.finishLoad; cases l.registers <;> rfl
  cases e with
  | silent _ h => exact .inl (light h)
  | unregister _ h => exact .inl (light (by simpa [Instr.light] using h))
  | @reset k running => left; cases running <;> rfl
  | await hs hr hc => exact .inr ⟨_, rfl, .waits hs hr hc⟩
  | @wait k ms turn ops forced =>
    refine .inr ⟨.stopWaited k ms turn forced, ?_, .waited⟩
    rw [List.filter_append, light Instr.light_nested]
    rfl
  | overdue hf => exact .inr ⟨_, rfl, .overdue hf⟩
  | check hs ho => exact .inr ⟨_, rfl, .forces hs ho⟩
  | fresh => left; rw [List.filter_append, up Instr.bringsUp_freshStart, finish]; rfl
  | restore => left; rw [List.filter_append, up Instr.bringsUp_restore, finish]; rfl
  | takeSwitch _ _ _ _ h => left; rw [List.filter_append, light h]; rfl
  | _ => exact .inl rfl

theorem Effect.stopsOn (e : Effect m a c next) (hb : b ∈ next) (h : b.awaits? = some id) :
    a.StopsOn m b := by
  have here : b ∈ next.filter (·.awaits?.isSome) := List.mem_filter.mpr ⟨hb, by simp [h]⟩
  rcases e.awaits_next with none | ⟨b', one, leads⟩
  · cases none ▸ here
  · exact List.mem_singleton.mp (one ▸ here) ▸ leads

end Effect

namespace System

variable {S T : System} {h : List Section} {b : Instr}

/-- What is pending has come from a section that was done, unless a thread begins with it. -/
theorem Life.arises (H : Life h S) (hb : b ∈ S.pending) (later : b.begins = false) :
    ∃ g V a rest reply others W g', h = g ++ ⟨V.machine, a⟩ :: g' ∧ Life g V ∧
      Moves V a rest reply others W ∧ b ∈ (a.exec V.machine reply).next := by
  revert hb
  refine H.induct_moves (P := fun h S => b ∈ S.pending → ∃ g V a rest reply others W g',
    h = g ++ ⟨V.machine, a⟩ :: g' ∧ Life g V ∧ Moves V a rest reply others W ∧
      b ∈ (a.exec V.machine reply).next) ?_ ?_ ?_
  · intro m _ hb
    cases hb
  · exact fun h S T J ih hb => ih ((J.mem_pending later).mp hb)
  · intro h S T a rest reply others H M ih hb
    rcases M.mem_after.mp hb with hb | hb
    · exact ⟨h, S, a, rest, reply, others, T, [], rfl, H, M, hb⟩
    · obtain ⟨g, V, a', rest', reply', others', W, g', rfl, rest⟩ :=
        ih (M.mem_before.mpr (.inr hb))
      exact ⟨g, V, a', rest', reply', others', W, g' ++ [⟨S.machine, a⟩], by simp, rest⟩

end System

/-! ## Scripts that delete their own entities -/

/-- The section has the script of the instance delete its entity. -/
def Section.selfDeletes (id : Nat) (s : Section) : Bool :=
  match s.instr with
  | .selfDelete k => k == id && (s.machine.get? id).isSome
  | _ => false

/-- The flag goes up when the script deletes its entity, and stays. -/
theorem Instr.selfDeleting_alter (m : Machine) (a : Instr) {id : Nat} {i : Instance}
    (hi : m.get? id = some i) :
    (a.alter id i).selfDeleting = (i.selfDeleting || Section.selfDeletes id ⟨m, a⟩) := by
  cases a with
  | selfDelete k =>
    by_cases hk : k = id
    · simp [alter, change?, Section.selfDeletes, hk, hi]
    · simp [alter, change?, Section.selfDeletes, hk]
  | edit k e =>
    simp only [alter, change?, Instance.edit, Section.selfDeletes, Bool.or_false]
    split
    · split <;> rfl
    · rfl
  | takeTurn | enter =>
    simp only [alter, change?, Section.selfDeletes, Bool.or_false]
    split
    · first | rfl | (split <;> first | rfl | (split <;> rfl))
    · rfl
  | stopEnd | publishMask | letGo | finishTurn | replaceState | lockScript | settle | unlock =>
    simp only [alter, change?, Section.selfDeletes, Bool.or_false]
    split
    · first | rfl | split <;> rfl
    · rfl
  | act v l =>
    cases l with
    | nil => simp [alter, change?, Section.selfDeletes]
    | cons x l =>
      simp only [alter, change?, Section.selfDeletes, Bool.or_false]
      split <;> rfl
  | _ => simp [alter, change?, Section.selfDeletes]

theorem Section.selfDeletes_of_absent {id : Nat} {s : Section} (h : s.machine.get? id = none) :
    s.selfDeletes id = false := by
  unfold selfDeletes
  split
  · next k _ =>
    by_cases hk : k = id
    · simp [hk, h]
    · simp [hk]
  · rfl

/-- What is asked of the pool by a stop that has not got its turn back. -/
def Note.demand : Note → Bool
  | .wait _ _ | .abort _ => true
  | _ => false

/-- The pool is asked for a forced end, unless the flag is up. -/
theorem Machine.trace_forceAbort (m : Machine) (i : Instance) (turn : Turn) :
    ∃ l, (m.forceAbort i turn).trace = l ++ m.trace ∧
      l.filter Note.demand = if i.selfDeleting then [] else [.abort turn.job] := by
  unfold forceAbort
  split
  · exact ⟨[.count (.forcedAbort true),
      .log .debug "forced abort suppressed during self-delete"], rfl, rfl⟩
  · simp only [abort]
    split
    · exact ⟨[_, _, _], rfl, rfl⟩
    · split
      · exact ⟨[_, _, _], rfl, rfl⟩
      · exact ⟨[_, _, _, _], rfl, rfl⟩
      · exact ⟨[_, _, _], rfl, rfl⟩

namespace System

variable {S T : System} {h g : List Section}

/-- An instance is at its deletion, by its flag, as soon as it has begun one. -/
theorem Life.deleting_eq (H : Life h S) (id : Nat) :
    (S.machine.get? id).any Instance.selfDeleting = h.any (Section.selfDeletes id) := by
  refine H.induct_moves (P := fun h S =>
    (S.machine.get? id).any Instance.selfDeleting = h.any (Section.selfDeletes id)) ?_ ?_ ?_
  · intro m fresh
    simp [Machine.get?, fresh.instances]
  · exact fun h S T J ih => (J.get? id).symm ▸ ih
  · intro h S T a rest reply others _ M ih
    rw [List.any_append, ← ih, List.any_cons, List.any_nil, Bool.or_false]
    cases hi : S.machine.get? id with
    | some i =>
      obtain ⟨s, p, hi'⟩ := M.get?_after hi
      rw [hi']
      exact Instr.selfDeleting_alter _ a hi
    | none =>
      rw [Section.selfDeletes_of_absent hi]
      cases hi' : T.machine.get? id with
      | none => rfl
      | some i =>
        obtain ⟨l, caps, -, rfl⟩ := Machine.get?_new reply hi (M.machine ▸ hi')
        rfl

variable {g' : List Section} {m : Machine} {id : Nat} {turn : Turn}

/-- What has come before a stop forces a turn to end. -/
theorem Life.forced_after (H : Life (g ++ ⟨m, .stopAbort id turn⟩ :: g') S) :
    ∃ g₁ g₂ g₃ ms n n' forced i, g = g₁ ++ ⟨n, .stopWaited id ms turn forced⟩ :: g₂ ++
        ⟨n', .stopCheck id ms turn⟩ :: g₃ ∧
      forced.getD (n.finished turn.job) = false ∧
      n'.get? id = some i ∧ i.owns turn.ticket = true := by
  obtain ⟨U, W₀, rest₀, r₀, others₀, HU, -, M, -⟩ := H.split
  obtain ⟨g₁₂, V, a, rest, r, others, W, g₃, rfl, HV, M', hb⟩ :=
    HU.arises (M.mem_before.mpr (.inl rfl)) rfl
  obtain ⟨ms, s, rfl, hs, ho⟩ : ∃ ms s, a = .stopCheck id ms turn ∧
      V.machine.core.slots[id]? = some s ∧ s.owns turn.ticket = true := by
    cases (effect_exec V.machine r a).stopsOn hb rfl with
    | forces hs ho => exact ⟨_, _, rfl, hs, ho⟩
  obtain ⟨i, hi, rfl⟩ := Machine.exists_get? hs
  obtain ⟨g₁, W, a, rest, r, others, X, g₂, rfl, -, M₁, hb⟩ :=
    HV.arises (M'.mem_before.mpr (.inl rfl)) rfl
  cases (effect_exec W.machine r a).stopsOn hb rfl with
  | overdue hf => exact ⟨g₁, g₂, g₃, ms, W.machine, V.machine, _, i, by simp, hf, hi, ho⟩

/-- A stop that is about to force the turn it has waited for to end, which it does only if the wait
was in vain and the turn was outstanding afterwards: the pool is asked to abort the turn unless the
script of the instance has ever asked for the deletion of its entity, whatever has become of it. -/
theorem Life.abort_withheld_iff (H : Life (g ++ ⟨m, .stopAbort id turn⟩ :: g') S) (r : Reply) :
    (∃ g₁ g₂ g₃ ms n n' forced i, g = g₁ ++ ⟨n, .stopWaited id ms turn forced⟩ :: g₂ ++
        ⟨n', .stopCheck id ms turn⟩ :: g₃ ∧
      forced.getD (n.finished turn.job) = false ∧
      n'.get? id = some i ∧ i.owns turn.ticket = true) ∧
    ∃ l, ((Instr.stopAbort id turn).exec m r).machine.trace = l ++ m.trace ∧
      (.abort turn.job ∉ l ↔ g.any (Section.selfDeletes id) = true) := by
  refine ⟨H.forced_after, ?_⟩
  obtain ⟨U, V, rest, reply, others, HU, rfl, M, -⟩ := H.split
  obtain ⟨⟨⟨j, hj, rfl, -⟩, -⟩, -⟩ := HU.forced.agendas _ M.mover
  obtain ⟨s, hs, -⟩ := HU.coherent.booked.owners _ _ hj
  obtain ⟨i, hi, -⟩ := Machine.exists_get? hs
  have flag := HU.deleting_eq j.owner
  rw [hi, Option.any_some] at flag
  rw [← flag]
  obtain ⟨l, hl, asked⟩ := U.machine.trace_forceAbort i turn
  refine ⟨l, by simpa only [Instr.exec, Instr.about, Instr.plain, hi] using hl, ?_⟩
  have told : .abort turn.job ∈ l ↔ .abort turn.job ∈ l.filter Note.demand := by
    simp [Note.demand]
  rw [told, asked]
  cases i.selfDeleting <;> simp

/-- A host whose script could not delete its entity and is now in a handler that nothing but an
interrupt ends. -/
def runaway : List Section × System := System.play 60 ⟨.bare true, []⟩
  [.call (.loadNew "a" 1
      (.answering [("die", [.finish (.returned .selfDelete)]), ("loop", [.park true])])),
    .call (.run 9), .call (.switch .refuseDelete true), .call (.post "a" (.plain "die" [])),
    .call (.run 9), .call (.post "a" (.plain "loop" [])), .claim 3, .go 6]

/-- A stop that has waited for the handler in vain. -/
def stoppingRunaway : List Section × System := System.play 5 runaway.2 [.call (.stop "a" 50)]

theorem abort_withheld_of_refusal :
    (∃ n : Nat, stoppingRunaway.2.machine.trace[n]? =
      some (Note.log .error "self-delete failed")) ∧
    ∃ l, (System.play 1 stoppingRunaway.2 [.go 7]).2.machine.trace =
        l ++ stoppingRunaway.2.machine.trace ∧ .abort 3 ∉ l := by
  have forces : (System.play 1 stoppingRunaway.2 [.go 7]).1 =
      [⟨stoppingRunaway.2.machine, .stopAbort 0 ⟨3, 3⟩⟩] := rfl
  have H := ((Life.play true 60 _).run (Run.play 5 runaway.2 [.call (.stop "a" 50)])).run
    (Run.play 1 stoppingRunaway.2 [.go 7])
  rw [forces] at H
  obtain ⟨-, l, hl, withheld⟩ := H.abort_withheld_iff .nothing
  have asked : (runaway.1 ++ stoppingRunaway.1).any (Section.selfDeletes 0) = true := rfl
  exact ⟨⟨9, rfl⟩, l, hl, withheld.mpr asked⟩

end System

end ScriptHost
