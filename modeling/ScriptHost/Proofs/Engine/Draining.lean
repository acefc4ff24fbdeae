import ScriptHost.Proofs.Engine.Dispatch

/-!
# Draining

A stopped instance whose last turn is still outstanding is draining. Somebody
is always at a stop that waits for that turn and will give it up if it must, as
long as waits do not lie: a wait that answers yes is one for a job that has
come to its end.
-/

namespace ScriptHost

/-- A wait does not claim that a job has come to its end which has not. -/
def Section.honest (s : Section) : Bool :=
  match s.instr with
  | .stopWaited _ _ turn (some true) => s.machine.finished turn.job
  | _ => true

/-- The turn that a stop waits for, with its instance. -/
def Instr.stops? : Instr → Option (Nat × Turn)
  | .stopWait id _ turn | .stopWaited id _ turn _ | .stopCheck id _ turn | .stopEnd id turn =>
    some (id, turn)
  | _ => none

/-- The instance is stopped, and the turn is still outstanding. -/
def Core.Drains (c : Core) (id : Nat) (turn : Turn) : Prop :=
  ∃ s, c.slots[id]? = some s ∧ s.running = false ∧ s.current = some turn

def System.Draining (S : System) : Prop :=
  ∀ id turn, S.machine.core.Drains id turn → ∃ a ∈ S.pending, a.stops? = some (id, turn)

section Step

variable {m : Machine} {a : Instr} {c : Core} {next later : List Instr} {id : Nat} {turn : Turn}

/-- What drains after a revision that asks for nothing drained before, or is what was revised. -/
theorem Core.drains_revise {k : Nat} {s s' : Slot} (hs : c.slots[k]? = some s)
    (hd : (c.revise k ⟨s', false⟩).Drains id turn) :
    c.Drains id turn ∨ id = k ∧ s'.running = false ∧ s'.current = some turn := by
  obtain ⟨s₁, hs₁, hr, hc⟩ := hd
  rw [slots_revise hs] at hs₁
  by_cases hk : id = k
  · rw [if_pos hk] at hs₁
    cases hs₁
    exact .inr ⟨hk, hr, hc⟩
  · rw [if_neg hk] at hs₁
    exact .inl ⟨s₁, hs₁, hr, hc⟩

/-- A revision of a slot makes no turn drain that did not, unless it stops the instance. -/
theorem Core.drains_of_revise {k : Nat} {s : Slot} {r : Revision} (hs : c.slots[k]? = some s)
    (sound : s.Sound r) (asks : r.asks = true → r.slot.running = true)
    (halts : r.slot.running = false → s.running = false)
    (hd : (c.revise k r).Drains id turn) : c.Drains id turn := by
  obtain ⟨slot, asks'⟩ := r
  cases asks' with
  | true =>
    obtain ⟨s₁, hs₁, hr, hc⟩ := hd
    rw [slots_revise hs] at hs₁
    split at hs₁
    · cases hs₁
      exact absurd (hr.symm.trans (asks rfl)) Bool.false_ne_true
    · exact ⟨s₁, hs₁, hr, hc⟩
  | false =>
    rcases drains_revise hs hd with h | ⟨rfl, hr, hc⟩
    · exact h
    · refine ⟨s, hs, halts hr, ?_⟩
      rcases sound.current with h | h
      · exact h ▸ hc
      · cases h.symm.trans hc

/-- A turn drains that did before, or whose stop has just found it at work. -/
theorem Effect.drains (e : Effect m a c next) (F : a.Fits m.core later)
    (hd : c.Drains id turn) :
    m.core.Drains id turn ∨ ∃ ms, a = .stop id ms ∧ .stopWait id ms turn ∈ next := by
  have quiet : ∀ {p : Prop}, (false = true → p) := fun h => absurd h (by simp)
  cases e with
  | start hs =>
    exact .inl (Core.drains_of_revise hs Slot.sound_start (fun _ => Slot.running_start)
      (fun h => by simp at h) hd)
  | post hs =>
    exact .inl (Core.drains_of_revise hs (Slot.sound_post _)
      (fun h => (Slot.hasWork_iff.mp (Slot.asks_post h).1).1) (fun h => by simpa using h) hd)
  | clear hs => exact .inl (Core.drains_of_revise hs Slot.sound_clear quiet (fun h => h) hd)
  | @refill k l s hs =>
    obtain ⟨s', hs', hr⟩ := F.1
    obtain rfl : s' = s := by simpa [hs] using hs'.symm
    exact .inl (Core.drains_of_revise hs (Slot.sound_refill l hr) quiet (fun h => h) hd)
  | @halt k ms s hs hno =>
    left
    rcases Core.drains_revise hs hd with h | ⟨rfl, -, hc⟩
    · exact h
    · rcases hno with hr | hn
      · exact ⟨s, hs, hr, hc⟩
      · cases hn.symm.trans hc
  | cancel hs =>
    rcases Core.drains_revise hs hd with h | ⟨rfl, -, hc⟩
    · exact .inl h
    · cases hc
  | @await k ms s t hs _ hcur =>
    rcases Core.drains_revise hs hd with h | ⟨rfl, -, hc⟩
    · exact .inl h
    · obtain rfl : t = turn := Option.some.inj (hcur.symm.trans hc)
      exact .inr ⟨ms, rfl, by simp⟩
  | giveUp hs =>
    exact .inl (Core.drains_of_revise hs (Slot.sound_giveUp _)
      (fun h => (Slot.hasWork_iff.mp (Slot.asks_giveUp h).1).1) (fun h => by simpa using h) hd)
  | create =>
    left
    obtain ⟨s, hs, hr, hc⟩ := hd
    rw [Core.slots_create] at hs
    split at hs
    · cases hs; cases hc
    · exact ⟨s, hs, hr, hc⟩
  | idle hs _ hq => exact .inl (Core.drains_of_revise hs (Slot.sound_idle hq) quiet (fun h => h) hd)
  | takeSwitch hs ho =>
    refine .inl (Core.drains_of_revise hs (Slot.sound_take ho) quiet ?_ hd)
    exact fun h => h
  | take hs ho =>
    refine .inl (Core.drains_of_revise hs (Slot.sound_take ho) quiet ?_ hd)
    exact fun h => h
  | handOn hs =>
    exact .inl (Core.drains_of_revise hs (Slot.sound_handOn _)
      (fun h => (Slot.hasWork_iff.mp (Slot.asks_handOn h).1).1) (fun h => by simpa using h) hd)
  | _ => exact .inl hd

/-- A stop that waits for a draining turn goes on doing so, until the turn drains no more. -/
theorem Effect.stops_next {W : Nat → Turn → Prop} (e : Effect m a c next)
    (B : m.core.Booked W) (honest : Section.honest ⟨m, a⟩ = true)
    (ha : a.stops? = some (id, turn)) (before : m.core.Drains id turn)
    (after : c.Drains id turn) : ∃ b ∈ next, b.stops? = some (id, turn) := by
  obtain ⟨s, hs, hrun, hcur⟩ := before
  have owns : s.owns turn.ticket = true := Slot.owns_iff.mpr ⟨turn, hcur, rfl⟩
  cases e with
  | silent hsil => cases a <;> first | (cases ha; done) | cases hsil
  | @absent _ k hsub hno =>
    have hne : k ≠ id := by
      rintro rfl
      cases (Machine.slots_of_get?_none hno).symm.trans hs
    cases a with
    | stopCheck | stopEnd => cases hsub; cases ha; exact absurd rfl hne
    | stopWait | stopWaited => cases hsub
    | _ => cases ha
  | @wait k ms t ops forced =>
    cases ha
    exact ⟨.stopWaited id ms turn forced, by simp, rfl⟩
  | @waited k ms t forced hf =>
    cases ha
    obtain ⟨j, hj, -, -, hp⟩ := B.outstanding id s turn hs hcur
    have hfin : m.finished turn.job = true := by
      cases forced with
      | none => exact hf
      | some b => cases b with
        | true => exact honest
        | false => cases hf
    have : m.job? turn.job = some j := hj
    rw [Machine.finished, this] at hfin
    rcases hp with hq | ⟨hr, -⟩
    · simp [Job.finished, hq] at hfin
    · simp [Job.finished, hr] at hfin
  | overdue => cases ha; exact ⟨_, List.mem_singleton_self _, rfl⟩
  | @passed k ms t s' hs' ho =>
    cases ha
    obtain rfl : s' = s := by simpa [hs] using hs'.symm
    cases owns.symm.trans ho
  | check => cases ha; exact ⟨.stopEnd _ _, by simp, rfl⟩
  | @giveUp k t s' hs' =>
    cases ha
    obtain rfl : s' = s := by simpa [hs] using hs'.symm
    have idle : s'.giveUp turn.ticket = ⟨{ s' with current := none }, false⟩ := by
      simp [Slot.giveUp, owns, Slot.hasWork, hrun]
    rw [idle] at after
    obtain ⟨s₁, hs₁, -, hc⟩ := after
    rw [Core.slots_revise hs, if_pos rfl] at hs₁
    cases hs₁
    cases hc
  | fresh h => rcases h with rfl | rfl <;> cases ha
  | _ => cases ha

end Step

namespace System

theorem Moves.draining {S T : System} {a : Instr} {rest : List Instr} {reply : Reply}
    {others : List Thread} (M : Moves S a rest reply others T) (C : S.Coherent)
    (honest : Section.honest ⟨S.machine, a⟩ = true) (D : S.Draining) : T.Draining := by
  intro id turn after
  rcases M.effect.drains (M.fits C) after with before | ⟨ms, -, hms⟩
  · obtain ⟨b, hb, hstop⟩ := D id turn before
    rcases M.mem_before.mp hb with rfl | hb
    · obtain ⟨b', hb', hstop'⟩ := M.effect.stops_next C.booked honest hstop before after
      exact ⟨b', M.mem_after.mpr (.inl hb'), hstop'⟩
    · exact ⟨b, M.mem_after.mpr (.inr hb), hstop⟩
  · exact ⟨_, M.mem_after.mpr (.inl hms), rfl⟩

/-- As long as waits are honest, whatever drains is waited for. -/
theorem Life.draining {h : List Section} {S : System} (H : Life h S)
    (honest : ∀ s ∈ h, s.honest = true) : S.Draining := by
  revert honest
  refine H.induct_moves (P := fun h S => (∀ s ∈ h, s.honest = true) → S.Draining) ?_ ?_ ?_
  · intro m hm _ id turn ⟨s, hs, _⟩
    simp [Machine.core, Machine.slots, hm.instances] at hs
  · intro h S T J D honest id turn hd
    rw [Core.Drains, J.slots] at hd
    obtain ⟨a, ha, hs⟩ := D honest id turn hd
    exact ⟨a, J.keeps ha, hs⟩
  · intro h S T a rest reply others H M D honest
    exact M.draining H.coherent (honest _ (List.mem_append_right _ (List.mem_singleton_self _)))
      (D fun s hs => honest s (List.mem_append_left _ hs))

end System

end ScriptHost
