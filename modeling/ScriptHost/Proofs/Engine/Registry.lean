import ScriptHost.Proofs.Engine.Draining

/-!
# The registry

The engine's registry has one entry for an item, and a load through the engine
enters its instance once, at its end. A load and a removal take the old entry
out and stop its instance; only then the load goes on. When another load of the
same item enters an instance in the meantime, the first load enters its own
over it, and nobody stops the one that is displaced.
-/

namespace ScriptHost

namespace Core

/-- The instance is registered, under some item. -/
def Lists (c : Core) (id : Nat) : Prop := id ∈ c.registered.map (·.2)

def Runs (c : Core) (id : Nat) : Prop := ∃ s, c.slots[id]? = some s ∧ s.running = true

/-- No item is registered twice, and every instance under its own. -/
structure Listed (c : Core) : Prop where
  items : (c.registered.map (·.1)).Nodup
  own : ∀ p ∈ c.registered, ∃ i, c.identities[p.2]? = some i ∧ i.item = p.1

theorem lists_iff {c : Core} {id : Nat} : c.Lists id ↔ ∃ item, (item, id) ∈ c.registered := by
  simp [Lists]

end Core

theorem Machine.runs_iff {m : Machine} {id : Nat} {i : Instance} (hi : m.get? id = some i) :
    m.core.Runs id ↔ i.slot.running = true := by
  simp [Core.Runs, slot_of_get? hi]

theorem Machine.perm_insertByItem (item : Uuid) (id : Nat) (l : List (Uuid × Nat)) :
    (insertByItem item id l).Perm ((item, id) :: l) := by
  induction l with
  | nil => exact .refl _
  | cons p l ih =>
    obtain ⟨other, n⟩ := p
    unfold insertByItem
    split
    · exact .refl _
    · exact (ih.cons _).trans (.swap _ _ _)

namespace Core

variable {c : Core} {item : Uuid} {id : Nat}

/-- The entries apart from that of an item. -/
theorem mem_unregister {p : Uuid × Nat} :
    p ∈ (c.unregister item).registered ↔ p ∈ c.registered ∧ p.1 ≠ item := by
  simp [unregister]

theorem mem_enter {p : Uuid × Nat} : p ∈ (c.enter item id).registered ↔
    p = (item, id) ∨ p ∈ c.registered ∧ p.1 ≠ item := by
  rw [enter, (Machine.perm_insertByItem _ _ _).mem_iff, List.mem_cons, mem_unregister]

namespace Listed

theorem lookup_iff (L : c.Listed) :
    c.registered.lookup item = some id ↔ (item, id) ∈ c.registered := by
  refine ⟨fun h => ?_, lookup_of_mem L.items⟩
  obtain ⟨l, r, h, -⟩ := List.lookup_eq_some_iff.mp h
  rw [h]
  exact List.mem_append_right _ List.mem_cons_self

/-- An instance is registered under one item. -/
theorem item_unique (L : c.Listed) {other : Uuid} (h : (item, id) ∈ c.registered)
    (h' : (other, id) ∈ c.registered) : item = other := by
  obtain ⟨i, hi, e⟩ := L.own _ h
  obtain ⟨j, hj, e'⟩ := L.own _ h'
  obtain rfl : i = j := Option.some.inj (hi.symm.trans hj)
  exact e.symm.trans e'

theorem unregister (L : c.Listed) : (c.unregister item).Listed where
  items := L.items.sublist (List.filter_sublist.map _)
  own p hp := L.own p (mem_unregister.mp hp).1

theorem enter {i : Identity} (L : c.Listed) (hi : c.identities[id]? = some i) :
    (c.enter i.item id).Listed where
  items := by
    rw [Core.enter, ((Machine.perm_insertByItem _ _ _).map _).nodup_iff, List.map_cons,
      List.nodup_cons]
    refine ⟨fun h => ?_, L.unregister.items⟩
    obtain ⟨p, hp, he⟩ := List.mem_map.mp h
    exact (mem_unregister.mp hp).2 he
  own p hp := by
    rcases mem_enter.mp hp with rfl | ⟨hp, -⟩
    · exact ⟨i, hi, rfl⟩
    · exact L.own p hp

end Listed

end Core

/-! ## What a section does to the registry -/

namespace Effect

variable {m : Machine} {a : Instr} {c : Core} {next later : List Instr} {id : Nat}

/-- Identities stay. -/
theorem identities (e : Effect m a c next) {i : Identity}
    (h : m.core.identities[id]? = some i) : c.identities[id]? = some i := by
  cases e with
  | create =>
    have hlt := (List.getElem?_eq_some_iff.mp h).1
    simpa [Core.create, List.getElem?_append_left hlt] using h
  | _ => exact h

/-- The registry stays, or an operation takes an entry out and goes on to stop its instance, or an
instance is entered under its item. -/
theorem registry (e : Effect m a c next) : c.registered = m.core.registered ∨
    (∃ o item k ms, a = .op o ∧ m.core.registered.lookup item = some k ∧
      c.registered = (m.core.unregister item).registered ∧ .stop k ms ∈ next) ∨
    (∃ k i, a = .register k ∧ m.core.identities[k]? = some i ∧
      c.registered = (m.core.enter i.item k).registered) := by
  cases e with
  | @unregister o item k ms rest h => exact .inr (.inl ⟨o, item, k, ms, rfl, h, rfl, by simp⟩)
  | @register k i h => exact .inr (.inr ⟨k, i, rfl, h, rfl⟩)
  | _ => exact .inl rfl

theorem listed (e : Effect m a c next) (L : m.core.Listed) : c.Listed := by
  have keep : ∀ d : Core, d.Listed → d.registered = c.registered →
      d.identities = m.core.identities → c.Listed := fun d D hr hi =>
    ⟨hr ▸ D.items, fun p hp => by
      obtain ⟨i, h, ho⟩ := D.own p (hr ▸ hp)
      exact ⟨i, e.identities (hi ▸ h), ho⟩⟩
  rcases e.registry with h | ⟨o, item, k, ms, -, -, h, -⟩ | ⟨k, i, -, hi, h⟩
  · exact keep m.core L h.symm rfl
  · exact keep _ L.unregister h.symm rfl
  · exact keep _ (L.enter hi) h.symm rfl

/-- A stop leaves its instance not running. -/
theorem not_runs_of_stop {ms : Nat} (e : Effect m (.stop id ms) c next) : ¬ c.Runs id := by
  have halted : ∀ {d : Core} {s s' : Slot}, d.slots[id]? = some s → s'.running = false →
      ¬ (d.revise id ⟨s', false⟩).Runs id := by
    rintro d s s' hs hr ⟨s₁, hs₁, hrun⟩
    rw [Core.slots_revise hs, if_pos rfl] at hs₁
    cases hs₁
    exact Bool.false_ne_true (hr.symm.trans hrun)
  cases e with
  | silent h => cases h
  | absent hsub hno =>
    cases hsub
    rintro ⟨s, hs, -⟩
    cases (Machine.slots_of_get?_none hno).symm.trans hs
  | halt hs => exact halted hs rfl
  | cancel hs => exact halted hs rfl
  | await hs => exact halted hs rfl
  | fresh h => rcases h with h | h <;> cases h

/-- Only a start makes an instance run. -/
theorem runs (e : Effect m a c next) (F : a.Fits m.core later) (ha : a ≠ .start id)
    (hlt : id < m.core.slots.length) (h : c.Runs id) : m.core.Runs id := by
  have hs : m.core.slots[id]? = some m.core.slots[id] := List.getElem?_eq_getElem hlt
  refine ⟨_, hs, ?_⟩
  cases hr : m.core.slots[id].running with
  | true => rfl
  | false =>
    obtain ⟨s', hs', hr'⟩ := (e.grows F).halted id ha ⟨_, hs, hr⟩
    obtain ⟨s'', hs'', hr''⟩ := h
    obtain rfl : s'' = s' := by simpa [hs'] using hs''.symm
    exact hr'.symm.trans hr''

end Effect

end ScriptHost
