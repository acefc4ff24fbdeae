import ScriptHost.Proofs.Engine.Booking
import ScriptHost.Proofs.Engine.Renumbering
import ScriptHost.Proofs.Engine.Surroundings
import ScriptHost.Proofs.Store.Agree

/-!
# What belongs to an item

The instances of an item, their jobs, the entry in the registry and the
document in the store belong to the item; everything else in a machine belongs
to all (`Setting`). Two machines agree on an item if they have the same of it
(`Machine.Agrees`): the changes that sections are made of, made to what belongs
to one item, leave agreement on every other.
-/

namespace ScriptHost

/-- What belongs to all scripts of a machine, and is not changed by any of them. -/
structure Setting where
  limits : Limits
  stopTimeout : Nat
  capabilities : CapabilityRegistry
  refusesCancel : Bool
  abortsRunning : Bool
  entities : List (UInt32 × Entity)
  exports : List (Uuid × Bytes)
  clock : Instant
  defects : List Defect
  releases : Nat
  hooks : List WaitHook × List (List Op) × List (List Op)

namespace Machine

def setting (m : Machine) : Setting where
  limits := m.limits
  stopTimeout := m.stopTimeout
  capabilities := m.capabilities
  refusesCancel := m.refusesCancel
  abortsRunning := m.abortsRunning
  entities := m.entities
  exports := m.exports
  clock := m.clock
  defects := m.defects
  releases := m.releases
  hooks := m.hooks

/-- The instance is one of the item's. -/
def Of (m : Machine) (a : Uuid) (id : Nat) : Prop := ∃ i, m.get? id = some i ∧ i.item = a

/-- The job is a turn of one of the item's instances. -/
def JobOf (m : Machine) (a : Uuid) (n : Nat) : Prop := ∃ j, m.job? n = some j ∧ m.Of a j.owner

section Basic

variable {m m' : Machine} {a c item : Uuid} {id n k : Nat} {i : Instance} {j : Job}

theorem Of.item_unique (h : m.Of a id) (h' : m.Of c id) : a = c := by
  obtain ⟨i, hi, rfl⟩ := h
  obtain ⟨i', hi', rfl⟩ := h'
  obtain rfl := Option.some.inj (hi.symm.trans hi')
  rfl

theorem Of.lt (h : m.Of a id) : id < m.instances.length := by
  obtain ⟨i, hi, -⟩ := h
  exact (List.getElem?_eq_some_iff.mp hi).1

theorem of_modify {f : Instance → Instance} (hf : ∀ i, (f i).item = i.item) :
    (m.modify k f).Of a id ↔ m.Of a id := by
  unfold Of
  rw [get?_modify]
  split
  · simp [hf]
  · exact Iff.rfl

theorem Of.modify {f : Instance → Instance} (h : m.Of a id) (hf : ∀ i, (f i).item = i.item) :
    (m.modify k f).Of a id :=
  (of_modify hf).mpr h

theorem JobOf.pos (h : m.JobOf a n) : 0 < n := by
  obtain ⟨j, hj, -⟩ := h
  exact Core.job?_pos (c := m.core) hj

theorem JobOf.le (h : m.JobOf a n) : n ≤ m.jobs.length := by
  obtain ⟨j, hj, -⟩ := h
  exact Core.job?_le (c := m.core) hj

theorem job?_modifyJob (f : Job → Job) (hn : 0 < n) :
    (m.modifyJob n f).job? k = if n = k then (m.job? k).map f else m.job? k := by
  unfold job? modifyJob
  by_cases hk : k = 0
  · simp [hk]
  · simp only [hk, if_false, List.getElem?_modify]
    by_cases h : n = k
    · simp [h]
    · simp [h, show n - 1 ≠ k - 1 by omega]

theorem job?_append (j : Job) : ({ m with jobs := m.jobs ++ [j] } : Machine).job? k =
    if k = m.jobs.length + 1 then some j else m.job? k := by
  unfold job?
  by_cases hk : k = 0
  · subst hk
    simp
  · rw [if_neg hk, List.getElem?_append]
    by_cases h : k = m.jobs.length + 1
    · simp [h]
    · rw [if_neg h]
      split
      · rfl
      · rw [List.getElem?_eq_none (by simp; omega), List.getElem?_eq_none (by omega)]

theorem get?_append (i : Instance) :
    ({ m with instances := m.instances ++ [i] } : Machine).get? k =
      if k = m.instances.length then some i else m.get? k := by
  unfold get?
  rw [List.getElem?_append]
  by_cases h : k = m.instances.length
  · simp [h]
  · rw [if_neg h]
    split
    · rfl
    · rw [List.getElem?_eq_none (by simp; omega), List.getElem?_eq_none (by omega)]

theorem lookup_insertByItem_self {l : List (Uuid × Nat)} (h : l.lookup item = none) :
    (insertByItem item id l).lookup item = some id := by
  induction l with
  | nil => simp [insertByItem]
  | cons p l ih =>
    obtain ⟨other, n⟩ := p
    rw [List.lookup_cons] at h
    unfold insertByItem
    split
    · simp
    · split at h
      · cases h
      · next hne =>
        rw [List.lookup_cons, hne]
        exact ih h

theorem lookup_insertByItem_other (l : List (Uuid × Nat)) (h : c ≠ item) :
    (insertByItem item id l).lookup c = l.lookup c := by
  have apart : (c == item) = false := by simpa using h
  induction l with
  | nil => simp [insertByItem, List.lookup_cons, apart]
  | cons p l ih =>
    unfold insertByItem
    split
    · rw [List.lookup_cons, apart]
    · rw [List.lookup_cons, List.lookup_cons, ih]

theorem lookup_unregistered (l : List (Uuid × Nat)) :
    (l.filter (·.1 != item)).lookup item = none := by
  induction l with
  | nil => rfl
  | cons p l ih =>
    by_cases h : p.1 = item
    · rw [List.filter_cons_of_neg (by simpa using h), ih]
    · rw [List.filter_cons_of_pos (by simpa using h), List.lookup_cons,
        show (item == p.1) = false by simpa using Ne.symm h, ih]

@[simp] theorem registered?_unregister_self : (m.unregister item).registered? item = none :=
  lookup_unregistered m.registered

theorem registered?_unregister_other (h : c ≠ item) :
    (m.unregister item).registered? c = m.registered? c :=
  lookup_filter_other h m.registered

@[simp] theorem registered?_register_self : (m.register item id).registered? item = some id :=
  lookup_insertByItem_self (lookup_unregistered m.registered)

theorem registered?_register_other (h : c ≠ item) :
    (m.register item id).registered? c = m.registered? c :=
  (lookup_insertByItem_other _ h).trans (registered?_unregister_other h)

end Basic

@[simp] theorem setting_requestTurn (m : Machine) (id : Nat) :
    (m.requestTurn id).setting = m.setting := by
  unfold requestTurn
  split <;> rfl

@[simp] theorem setting_write (m : Machine) (item : Uuid) (data : Bytes) :
    (m.write item data).1.setting = m.setting := by
  unfold write
  simp only
  split
  · rfl
  · split
    · rfl
    · split
      · split <;> rfl
      · rfl

@[simp] theorem setting_remove (m : Machine) (item : Uuid) :
    (m.remove item).1.setting = m.setting := by
  unfold remove
  simp only
  split
  · rfl
  · split <;> rfl

/-! ## Agreement on an item -/

/-- The two machines have the same of an item. -/
structure Agrees (c : Uuid) (m m' : Machine) : Prop where
  get? : ∀ {id : Nat} {i : Instance}, i.item = c → (m.get? id = some i ↔ m'.get? id = some i)
  job? : ∀ {n : Nat} {j : Job}, m.Of c j.owner → (m.job? n = some j ↔ m'.job? n = some j)
  registered : m.registered? c = m'.registered? c
  store : DocumentStore.Agrees c m.store m'.store

namespace Agrees

variable {m m' m'' : Machine} {a c : Uuid} {id n : Nat}

theorem of (A : Agrees c m m') : m.Of c id ↔ m'.Of c id :=
  exists_congr fun _ => and_congr_left fun h => A.get? h

theorem refl (c : Uuid) (m : Machine) : Agrees c m m where
  get? _ := Iff.rfl
  job? _ := Iff.rfl
  registered := rfl
  store := .refl c m.store

theorem symm (A : Agrees c m m') : Agrees c m' m where
  get? h := (A.get? h).symm
  job? h := (A.job? (A.of.mpr h)).symm
  registered := A.registered.symm
  store := A.store.symm

theorem jobOf (A : Agrees c m m') (h : m.JobOf c n) : m'.JobOf c n := by
  obtain ⟨j, hj, ho⟩ := h
  exact ⟨j, (A.job? ho).mp hj, A.of.mp ho⟩

theorem trans (A : Agrees c m m') (A' : Agrees c m' m'') : Agrees c m m'' where
  get? h := (A.get? h).trans (A'.get? h)
  job? h := (A.job? h).trans (A'.job? (A.of.mp h))
  registered := A.registered.trans A'.registered
  store := A.store.trans A'.store

/-- Nothing has changed but the store. -/
theorem of_store (hi : m'.instances = m.instances) (hj : m'.jobs = m.jobs)
    (hr : m'.registered = m.registered) (hs : DocumentStore.Agrees c m.store m'.store) :
    Agrees c m m' where
  get? _ := by rw [Machine.get?, Machine.get?, hi]
  job? _ := by rw [Machine.job?, Machine.job?, hj]
  registered := by rw [registered?, registered?, hr]
  store := hs

/-- Nothing that belongs to any item has changed. -/
theorem of_eq (hi : m'.instances = m.instances) (hj : m'.jobs = m.jobs)
    (hr : m'.registered = m.registered) (hs : m'.store = m.store) : Agrees c m m' :=
  of_store hi hj hr (hs ▸ .refl c m.store)

section Other

variable (hne : c ≠ a)

include hne

theorem modify {f : Instance → Instance} (h : m.Of a id) (hf : ∀ i, (f i).item = i.item) :
    Agrees c m (m.modify id f) where
  get? := by
    intro k i hc
    rw [get?_modify]
    split
    · next he =>
      subst he
      obtain ⟨i₀, hi₀, ha⟩ := h
      rw [hi₀, Option.map_some]
      refine ⟨fun e => ?_, fun e => ?_⟩
      · obtain rfl := Option.some.inj e
        exact absurd (hc.symm.trans ha) hne
      · obtain rfl := Option.some.inj e
        exact absurd (hc.symm.trans ((hf i₀).trans ha)) hne
    · exact Iff.rfl
  job? _ := Iff.rfl
  registered := rfl
  store := .refl c m.store

theorem modifyJob {f : Job → Job} (h : m.JobOf a n) (hf : ∀ j, (f j).owner = j.owner) :
    Agrees c m (m.modifyJob n f) where
  get? _ := Iff.rfl
  job? := by
    intro k j hc
    rw [job?_modifyJob f h.pos]
    split
    · next he =>
      subst he
      obtain ⟨j₀, hj₀, ha⟩ := h
      rw [hj₀, Option.map_some]
      refine ⟨fun e => ?_, fun e => ?_⟩
      · obtain rfl := Option.some.inj e
        exact absurd (hc.item_unique ha) hne
      · obtain rfl := Option.some.inj e
        rw [hf] at hc
        exact absurd (hc.item_unique ha) hne
    · exact Iff.rfl
  registered := rfl
  store := .refl c m.store

theorem appendJob {j : Job} (h : m.Of a j.owner) :
    Agrees c m { m with jobs := m.jobs ++ [j] } where
  get? _ := Iff.rfl
  job? := by
    intro k j' hc
    rw [job?_append]
    split
    · next he =>
      subst he
      refine ⟨fun e => ?_, fun e => ?_⟩
      · have := Core.job?_le (c := m.core) e
        have : m.core.jobs.length = m.jobs.length := rfl
        omega
      · obtain rfl := Option.some.inj e
        exact absurd (hc.item_unique h) hne
    · exact Iff.rfl
  registered := rfl
  store := .refl c m.store

theorem requestTurn (h : m.Of a id) : Agrees c m (m.requestTurn id) := by
  obtain ⟨i, hi, ha⟩ := h
  have given := appendJob (j := ⟨id, i.slot.lastTicket + 1, .queued, false⟩) hne ⟨i, hi, ha⟩
  have taken := given.trans
    (modify (f := (·.occupy (m.jobs.length + 1))) hne ⟨i, hi, ha⟩ fun _ => rfl)
  unfold Machine.requestTurn
  rw [hi]
  exact taken.trans (.of_eq rfl rfl rfl rfl)

theorem append {i : Instance} (h : i.item = a) :
    Agrees c m { m with instances := m.instances ++ [i] } where
  get? := by
    intro k i' hc
    rw [get?_append]
    split
    · next he =>
      subst he
      refine ⟨fun e => ?_, fun e => ?_⟩
      · have := (List.getElem?_eq_some_iff.mp e).1
        omega
      · obtain rfl := Option.some.inj e
        exact absurd (hc.symm.trans h) hne
    · exact Iff.rfl
  job? _ := Iff.rfl
  registered := rfl
  store := .refl c m.store

theorem write (data : Bytes) : Agrees c m (m.write a data).1 := by
  unfold Machine.write
  simp only
  split
  · exact .of_eq rfl rfl rfl rfl
  · split
    · exact .of_eq rfl rfl rfl rfl
    · split
      · next store hs =>
        have kept : Agrees c m { m.note (.write a data.length) with store } :=
          of_store rfl rfl rfl (DocumentStore.agrees_of_write hne.symm hs).symm
        split
        · exact kept.trans (.of_eq rfl rfl rfl rfl)
        · exact kept
      · exact .of_eq rfl rfl rfl rfl

theorem remove : Agrees c m (m.remove a).1 := by
  unfold Machine.remove
  simp only
  split
  · exact .of_eq rfl rfl rfl rfl
  · split
    · next store hs =>
      exact of_store rfl rfl rfl (DocumentStore.agrees_of_remove hne.symm hs).symm
    · exact .of_eq rfl rfl rfl rfl

theorem unregister : Agrees c m (m.unregister a) where
  get? _ := Iff.rfl
  job? _ := Iff.rfl
  registered := (registered?_unregister_other hne).symm
  store := .refl c m.store

theorem register : Agrees c m (m.register a id) where
  get? _ := Iff.rfl
  job? _ := Iff.rfl
  registered := (registered?_register_other hne).symm
  store := .refl c m.store

end Other

end Agrees

end Machine

end ScriptHost
