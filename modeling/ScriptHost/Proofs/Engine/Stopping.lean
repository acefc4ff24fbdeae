import ScriptHost.Proofs.Engine.Registry
import ScriptHost.Proofs.Engine.Undisturbed

/-!
# The stop of a reset

A reset stops the instance before it wipes anything, and waits for the turn
that is outstanding, as any stop does. When nobody else starts or stops the
instance and no wait lies, the stop leaves an instance that does not run and
has no turn (`Run.reset_stops`).
-/

namespace ScriptHost

/-- What a reset does between its stop and its start. -/
def Instr.wipes (id : Nat) : List Instr :=
  [.removeState id] ++ revokeGrants id ++
    [.clearQueue id, .edit id .resetVars, .replaceState id Instance.defaultState, .publishMask id]

/-- What a reset does with an instance that it has stopped. -/
def Instr.renews (id : Nat) : List Instr := wipes id ++ [.start id, .post id .stateEntry]

theorem Instr.resetAll_eq (id : Nat) : resetAll id true = .stop id 0 :: renews id := rfl

theorem Instr.renews_eq (id : Nat) : renews id =
    [.removeState id, .clearPermissions id, .removePlugins id, .clearQueue id, .edit id .resetVars,
      .replaceState id Instance.defaultState, .publishMask id, .start id,
      .post id .stateEntry] := rfl

/-- The section is one of the wipe, or ends the errand of one. -/
def Instr.Wipes (id : Nat) (a : Instr) : Prop := a ∈ wipes id ∨ ∃ e, a = .letGo id e

theorem Instr.Wipes.next {id : Nat} {a : Instr} (h : a.Wipes id) (m : Machine) (r : Reply) :
    (a.exec m r).next = [] ∨ ∃ e, (a.exec m r).next = [.letGo id e] := by
  rcases h with h | ⟨e, rfl⟩
  · simp only [wipes, revokeGrants, List.cons_append, List.nil_append, List.mem_cons,
      List.not_mem_nil, or_false] at h
    rcases h with rfl | rfl | rfl | rfl | rfl | rfl | rfl
    · exact .inl Instr.next_about
    · exact .inl Instr.next_about
    · exact .inl Instr.next_about
    · exact .inl rfl
    · exact (Instr.next_edit m r id _).imp_right fun h => ⟨_, h⟩
    · exact .inl rfl
    · exact (Instr.next_publishMask m r id).imp_right fun h => ⟨_, h⟩
  · exact .inl rfl

/-- A wipe comes nearer to its end, or stays as near with an errand to be ended. -/
theorem Instr.Wipes.step {id : Nat} {a : Instr} {l : List Instr} (h : ∀ b ∈ a :: l, b.Wipes id)
    (m : Machine) (r : Reply) : (∀ b ∈ (a.exec m r).next ++ l, b.Wipes id) ∧
      ((a.exec m r).next ++ l).length ≤ (a :: l).length := by
  obtain ⟨here, later⟩ := List.forall_mem_cons.mp h
  rcases here.next m r with hn | ⟨e, hn⟩
  · rw [hn]
    exact ⟨later, Nat.le_succ _⟩
  · rw [hn]
    exact ⟨List.forall_mem_cons.mpr ⟨.inr ⟨e, rfl⟩, later⟩, Nat.le_refl _⟩

/-- The section begins to start or to stop the instance. -/
def Section.switches (id : Nat) (s : Section) : Bool :=
  match s.instr with
  | .start k | .stop k _ => k == id
  | _ => false

theorem Section.not_start_of_switches {id : Nat} {s : Section} (h : s.switches id = false) :
    s.instr ≠ .start id := fun he => by simp [switches, he] at h

/-- A stop waits for a turn of an instance that runs. -/
theorem Effect.runs_of_awaited {m : Machine} {id ms : Nat} {c : Core} {next : List Instr}
    {turn : Turn} (e : Effect m (.stop id ms) c next) (waits : .stopWait id ms turn ∈ next) :
    m.core.Runs id := by
  cases e with
  | silent h => cases h
  | await hs hr => exact ⟨_, hs, hr⟩
  | fresh h => rcases h with h | h <;> cases h
  | _ => cases waits

namespace System

section

variable {S T U : System} {h l : List Section} {id k : Nat} {i : Instance} {m : Machine}
  {rest : List Instr} {r₀ r₁ : Reply}

/-- A stop is under way, `l` being what is left of it: the instance does not run, and if a turn of
it is still outstanding then the stop waits for it. -/
structure Waiting (id : Nat) (l : List Instr) (V : System) : Prop where
  here : ∃ i, V.machine.get? id = some i
  halted : ¬ V.machine.core.Runs id
  waits : ∀ turn, V.machine.core.Drains id turn → ∃ b ∈ l, b.stops? = some (id, turn)

/-- A section that does not start an instance that does not run makes no turn of it drain, nor has
it run. -/
theorem stays_halted {a : Instr} {c : Core} {next later : List Instr} (e : Effect m a c next)
    (F : a.Fits m.core later) (ha : a ≠ .start id)
    (hi : m.get? id = some i) (hr : ¬ m.core.Runs id) :
    ¬ c.Runs id ∧ ∀ turn, c.Drains id turn → m.core.Drains id turn := by
  have hlt := (List.getElem?_eq_some_iff.mp (Machine.slot_of_get? hi)).1
  refine ⟨fun h => hr (e.runs F ha hlt h), fun turn h => (e.drains F h).resolve_right ?_⟩
  rintro ⟨ms, rfl, waits⟩
  exact hr (e.runs_of_awaited waits)

theorem undrained_of_runs {c : Core} (running : c.Runs id) (turn : Turn) :
    ¬ c.Drains id turn := by
  rintro ⟨s, hs, hr, -⟩
  obtain ⟨s', hs', hr'⟩ := running
  obtain rfl := Option.some.inj (hs.symm.trans hs')
  exact Bool.false_ne_true (hr.symm.trans hr')

/-- An instance of which no turn drains is left, when it is stopped, with its stop waiting. -/
theorem Waiting.of_stop {l : List Instr} {V W : System} {r : Reply} {ms : Nat}
    (hi : V.machine.get? id = some i) (undrained : ∀ turn, ¬ V.machine.core.Drains id turn)
    (hW : W.machine = ((Instr.stop id ms).exec V.machine r).machine)
    (hl : ((Instr.stop id ms).exec V.machine r).next ⊆ l) : Waiting id l W := by
  have e := hW ▸ effect_exec V.machine r (.stop id ms)
  have fits : (Instr.stop id ms).Fits V.machine.core [] := trivial
  obtain ⟨s, p, hg⟩ := Machine.get?_exec r (.stop id ms) hi
  refine ⟨⟨_, hW ▸ hg⟩, e.not_runs_of_stop, fun turn hd => ?_⟩
  obtain ⟨ms', -, waits⟩ := (e.drains fits hd).resolve_left (undrained turn)
  exact ⟨_, hl waits, rfl⟩

/-- Other threads leave a stop waiting, as long as they do not start the instance. -/
theorem Waiting.others {g : List Section} {l : List Instr} {V W : System} (w : Waiting id l V)
    (C : V.Coherent) (s : V.Step g W) (unstarted : ∀ s ∈ g, s.instr ≠ .start id) :
    Waiting id l W := by
  obtain ⟨i, hi⟩ := w.here
  rcases s.joins_or_moves with ⟨-, J⟩ | ⟨a, rest, reply, others, rfl, M⟩
  · refine ⟨⟨i, (J.get? id).trans hi⟩, ?_, fun turn h => w.waits turn ?_⟩
    · rintro ⟨s, hs, h⟩
      exact w.halted ⟨s, J.slots ▸ hs, h⟩
    · obtain ⟨s, hs, h⟩ := h
      exact ⟨s, J.slots ▸ hs, h⟩
  · obtain ⟨s, p, hi'⟩ := M.get?_after hi
    obtain ⟨halted, before⟩ := stays_halted M.effect (M.fits C)
      (unstarted _ (List.mem_singleton_self _)) hi w.halted
    exact ⟨⟨_, hi'⟩, halted, fun turn h => w.waits turn (before turn h)⟩

/-- The stop goes on waiting when it does its own next section. -/
theorem Waiting.own {b : Instr} {l later : List Instr} {V W : System} {r : Reply}
    (w : Waiting id (b :: l) V) (C : V.Coherent) (F : b.Fits V.machine.core later)
    (hW : W.machine = (b.exec V.machine r).machine)
    (unstarted : b ≠ .start id) (honest : Section.honest ⟨V.machine, b⟩ = true) :
    Waiting id ((b.exec V.machine r).next ++ l) W := by
  obtain ⟨i, hi⟩ := w.here
  obtain ⟨s, p, hi'⟩ := Machine.get?_exec r b hi
  have e := hW ▸ effect_exec V.machine r b
  obtain ⟨halted, before⟩ := stays_halted e F unstarted hi w.halted
  refine ⟨⟨_, hW ▸ hi'⟩, halted, fun turn h => ?_⟩
  obtain ⟨x, hx, hs⟩ := w.waits turn (before turn h)
  rcases List.mem_cons.mp hx with rfl | hx
  · obtain ⟨y, hy, hs'⟩ := e.stops_next C.booked honest hs (before turn h) h
    exact ⟨y, List.mem_append_left _ hy, hs'⟩
  · exact ⟨x, List.mem_append_right _ hx, hs⟩

/-- When nothing is left of a stop, no turn is outstanding. -/
theorem Waiting.over {V : System} (w : Waiting id [] V) :
    ∃ i, V.machine.get? id = some i ∧ i.slot.running = false ∧ i.slot.current = none := by
  obtain ⟨i, hi⟩ := w.here
  have stopped : i.slot.running = false :=
    Bool.eq_false_iff.mpr fun h => w.halted ((Machine.runs_iff hi).mpr h)
  refine ⟨i, hi, stopped, Option.eq_none_iff_forall_ne_some.mpr fun turn hc => ?_⟩
  obtain ⟨b, hb, -⟩ := w.waits turn ⟨_, Machine.slot_of_get? hi, stopped, hc⟩
  cases hb

/-- How far a reset has got: it has not begun to stop the instance; it is at the stop; or it has
begun to wipe. -/
inductive Stopping (k id : Nat) (rest : List Instr) (g : List Section) (V : System) : Prop where
  | before {r : Reply} : V.threads[k]? = some ⟨Instr.resetAll id true ++ rest, r⟩ →
      Stopping k id rest g V
  | waits {l : List Instr} {r : Reply} :
      V.threads[k]? = some ⟨l ++ (Instr.renews id ++ rest), r⟩ →
      g.filter (Section.switches id) ≠ [] → Waiting id l V → Stopping k id rest g V
  | after {l : List Instr} {r : Reply} :
      V.threads[k]? = some ⟨l ++ ([.start id, .post id .stateEntry] ++ rest), r⟩ →
      g.filter (Section.switches id) ≠ [] → (∀ b ∈ l, b.Wipes id) →
      l.length < (Instr.wipes id).length → Stopping k id rest g V

/-- Where there is one switch at most, there is no other after it. -/
theorem unswitched_after {g l : List Section} {x : Section}
    (once : (g ++ l).filter (Section.switches id) <+: [x])
    (hg : g.filter (Section.switches id) ≠ []) : ∀ s ∈ l, s.switches id = false := by
  intro s hs
  refine Bool.eq_false_iff.mpr fun ht => ?_
  have := once.length_le
  have := List.length_pos_iff.mpr hg
  have := List.length_pos_of_mem (List.mem_filter.mpr ⟨hs, ht⟩)
  simp only [List.filter_append, List.length_append, List.length_singleton] at *
  omega

theorem Stopping.step {g : List Section} {V W : System} (P : Stopping k id rest g V)
    (H : Life h V) (s : V.Step l W) (honest : ∀ s ∈ l, s.honest = true)
    (once : (g ++ l).filter (Section.switches id) <+: [⟨m, .stop id 0⟩])
    (running : m.core.Runs id) : Stopping k id rest (g ++ l) W := by
  have C := H.coherent
  have grown : g.filter (Section.switches id) ≠ [] →
      (g ++ l).filter (Section.switches id) ≠ [] := fun hg he => by
    rw [List.filter_append] at he
    exact hg (List.append_eq_nil_iff.mp he).1
  -- Nothing but the stop of the reset itself switches the instance.
  have unswitched := unswitched_after once
  cases P with
  | @before r hk =>
    rcases s.thread hk with hk | ⟨a, rest', ha, rfl, hW, hk⟩
    · exact .before hk
    · rw [Instr.resetAll_eq, List.cons_append] at ha
      obtain ⟨rfl, rfl⟩ := List.cons.inj ha
      have here : Section.switches id ⟨V.machine, .stop id 0⟩ = true := by
        simp [Section.switches]
      obtain rfl : V.machine = m := by
        rw [List.filter_append, List.filter_cons_of_pos here, List.filter_nil] at once
        rcases List.append_eq_singleton_iff.mp (once.eq_of_length_le (by simp)) with
          ⟨-, he⟩ | ⟨-, he⟩
        · exact congrArg Section.machine (List.singleton_inj.mp he)
        · cases he
      have undrained := undrained_of_runs running
      obtain ⟨slot, hs, -⟩ := running
      obtain ⟨i, hi, -⟩ := Machine.exists_get? hs
      exact .waits hk (by simp [here]) (.of_stop hi undrained hW (List.Subset.refl _))
  | @waits l₀ r hk hg w =>
    rcases s.thread hk with hk' | ⟨a, rest', ha, rfl, hW, hk'⟩
    · have unstarted := fun s hs => Section.not_start_of_switches (unswitched hg s hs)
      exact .waits hk' (grown hg) (w.others C s unstarted)
    · have F := ha ▸ C.agendas _ (List.mem_of_getElem? hk)
      have here := Section.not_start_of_switches (unswitched hg _ (List.mem_singleton_self _))
      cases l₀ with
      | nil =>
        obtain ⟨rfl, rfl⟩ := List.cons.inj ha
        rw [show ((Instr.removeState id).exec V.machine r).next = [] from Instr.next_about,
          List.nil_append] at hk'
        exact .after (l := (Instr.wipes id).tail) hk' (grown hg)
          (fun b hb => .inl (List.mem_of_mem_tail hb)) (Nat.lt_succ_self _)
      | cons b l₁ =>
        rw [List.cons_append] at ha
        obtain ⟨rfl, rfl⟩ := List.cons.inj ha
        rw [← List.append_assoc] at hk'
        exact .waits hk' (grown hg)
          (w.own C F.1 hW here (honest _ (List.mem_singleton_self _)))
  | @after l₀ r hk hg wipes short =>
    rcases s.thread hk with hk' | ⟨a, rest', ha, rfl, -, hk'⟩
    · exact .after hk' (grown hg) wipes short
    · cases l₀ with
      | nil =>
        obtain ⟨rfl, -⟩ := List.cons.inj ha
        have := unswitched hg _ (List.mem_singleton_self _)
        simp [Section.switches] at this
      | cons b l₁ =>
        obtain ⟨rfl, rfl⟩ := List.cons.inj ha
        obtain ⟨wipes', short'⟩ := Instr.Wipes.step wipes V.machine r
        refine .after (r := ((b.exec V.machine r).reply)) (hk'.trans ?_) (grown hg) wipes'
          (Nat.lt_of_le_of_lt short' short)
        rw [List.append_assoc]
        rfl

/-- When a reset has stopped its instance, honestly, no turn of it is outstanding. -/
theorem Run.reset_stops (r : Run S l U) (H : Life h S)
    (hk : S.threads[k]? = some ⟨Instr.resetAll id true ++ rest, r₀⟩)
    (hU : U.threads[k]? = some ⟨Instr.renews id ++ rest, r₁⟩)
    (honest : ∀ s ∈ l, s.honest = true)
    (once : l.filter (Section.switches id) = [⟨m, .stop id 0⟩]) (running : m.core.Runs id) :
    ∃ i, U.machine.get? id = some i ∧ i.slot.running = false ∧ i.slot.current = none := by
  have P : Stopping k id rest l U := by
    replace once : l.filter (Section.switches id) <+: [⟨m, .stop id 0⟩] :=
      once ▸ List.prefix_refl _
    clear hU
    induction r with
    | refl => exact .before hk
    | @snoc g l V W r s ih =>
      have earlier := ih (fun s hs => honest s (List.mem_append_left _ hs))
        (.trans ((List.prefix_append g l).filter _) once)
      exact earlier.step (H.run r) s (fun s hs => honest s (List.mem_append_right _ hs)) once
        running
  cases P with
  | before hk' =>
    have := congrArg List.length (congrArg Thread.agenda (Option.some.inj (hU.symm.trans hk')))
    simp [Instr.resetAll_eq] at this
  | after hk' _ _ short =>
    have := congrArg List.length (congrArg Thread.agenda (Option.some.inj (hU.symm.trans hk')))
    simp only [Instr.renews, List.length_append] at this
    omega
  | @waits l₀ r hk' _ w =>
    have same := congrArg Thread.agenda (Option.some.inj (hU.symm.trans hk'))
    obtain rfl : l₀ = [] := List.self_eq_append_left.mp same
    exact w.over

end

end System

end ScriptHost
