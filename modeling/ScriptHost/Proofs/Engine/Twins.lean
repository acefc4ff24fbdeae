import ScriptHost.Proofs.Engine.Parts

/-!
# Twins

Two machines are twins in an item if what belongs to it is the same in both, up
to the numbers of instances and jobs (`Machine.Twins`). The changes that sections
are made of, made to the item alike in two twins, leave them twins: numbers that
are new in the one stand for numbers that are new in the other.
-/

namespace ScriptHost

namespace Machine

/-- The machine `m'` has of the item what `m` has of it, under other numbers. -/
structure Matches (a : Uuid) (ρ : Renumbering) (m m' : Machine) : Prop where
  get? : ∀ {id : Nat} {i : Instance}, m.get? id = some i → i.item = a →
    m'.get? (ρ.id id) = some (i.renumber ρ)
  job? : ∀ {n : Nat} {j : Job}, m.job? n = some j → m.Of a j.owner →
    m'.job? (ρ.job n) = some (j.renumber ρ)
  registered : m'.registered? a = (m.registered? a).map ρ.id
  store : DocumentStore.Agrees a m.store m'.store

/-- What is registered for the item, and the jobs of its outstanding turns, are the item's. -/
structure Owns (a : Uuid) (m : Machine) : Prop where
  listed : ∀ {id : Nat}, m.registered? a = some id → m.Of a id
  booked : ∀ {id : Nat} {i : Instance} {turn : Turn}, m.get? id = some i → i.item = a →
    i.slot.current = some turn → m.JobOf a turn.job

/-- The machines match in the item, nobody is called back in either, and the numbers tell the
item's instances and jobs apart, those to come included. -/
structure Twins (a : Uuid) (ρ : Renumbering) (m m' : Machine) : Prop extends
    Matches a ρ m m', Owns a m where
  setting : m'.setting = m.setting
  quiet : m.hooks = ([], [], [])
  owners : ∀ {n : Nat} {j : Job}, m.job? n = some j → j.owner < m.instances.length
  id_inj : ∀ {k l : Nat}, m.Of a k → m.Of a l → ρ.id k = ρ.id l → k = l
  job_inj : ∀ {k l : Nat}, m.JobOf a k → m.JobOf a l → ρ.job k = ρ.job l → k = l
  id_next : ∀ k, ρ.id (m.instances.length + k) = m'.instances.length + k
  job_next : ∀ k, ρ.job (m.jobs.length + 1 + k) = m'.jobs.length + 1 + k
  place_next : ∀ k, ρ.place (m.named.length + k) = m'.named.length + k

/-- The numbers of what a machine has stay as they are. -/
structure Spared (ρ : Renumbering) (m : Machine) : Prop where
  id : ∀ {k : Nat}, k < m.instances.length → ρ.id k = k
  job : ∀ {k : Nat}, k ≤ m.jobs.length → ρ.job k = k

section Matching

variable {a : Uuid} {ρ σ : Renumbering} {m m' n : Machine}

/-- What belongs to the item is the same, under whatever numbers. -/
theorem Owns.of_agrees (O : Owns a m) (A : Agrees a m n) : Owns a n where
  listed h := A.of.mp (O.listed (A.registered.trans h))
  booked hi ha hc := A.jobOf (O.booked ((A.get? ha).mpr hi) ha hc)

theorem Agrees.matches (A : Agrees a m m') (O : Owns a m) (S : Spared ρ m) :
    Matches a ρ m m' where
  get? {id i} hi ha := by
    have same : i.renumber ρ = i :=
      Instance.renumber_eq_self fun turn hc => S.job (O.booked hi ha hc).le
    rw [S.id (Of.lt ⟨i, hi, ha⟩), same]
    exact (A.get? ha).mp hi
  job? {n j} hj ho := by
    have same : j.renumber ρ = j := by
      rw [Job.renumber, S.id ho.lt]
    rw [S.job (JobOf.le ⟨j, hj, ho⟩), same]
    exact (A.job? ho).mp hj
  registered := by
    rw [← A.registered]
    cases hr : m.registered? a with
    | none => rfl
    | some id => rw [Option.map_some, S.id (O.listed hr).lt]
  store := A.store

namespace Matches

/-- Only the numbers of what belongs to the item matter. -/
theorem congr (M : Matches a ρ m m') (O : Owns a m) (hid : ∀ {k}, m.Of a k → σ.id k = ρ.id k)
    (hjob : ∀ {k}, m.JobOf a k → σ.job k = ρ.job k) : Matches a σ m m' where
  get? {id i} hi ha := by
    have same : i.renumber σ = i.renumber ρ :=
      Instance.renumber_congr fun turn hc => hjob (O.booked hi ha hc)
    rw [hid ⟨i, hi, ha⟩, same]
    exact M.get? hi ha
  job? {n j} hj ho := by
    have same : j.renumber σ = j.renumber ρ := by
      rw [Job.renumber, Job.renumber, hid ho]
    rw [hjob ⟨j, hj, ho⟩, same]
    exact M.job? hj ho
  registered := by
    rw [M.registered]
    cases hr : m.registered? a with
    | none => rfl
    | some id => rw [Option.map_some, Option.map_some, hid (O.listed hr)]
  store := M.store

theorem left (M : Matches a ρ m m') (A : Agrees a m n) : Matches a ρ n m' where
  get? hi ha := M.get? ((A.get? ha).mpr hi) ha
  job? hj ho := M.job? ((A.job? (A.of.mpr ho)).mpr hj) (A.of.mpr ho)
  registered := by rw [M.registered, A.registered]
  store := A.store.symm.trans M.store

theorem right (M : Matches a ρ m m') (A : Agrees a m' n) : Matches a ρ m n where
  get? {k i} hi ha := (A.get? (i := i.renumber ρ) ha).mp (M.get? hi ha)
  job? {k j} hj ho := by
    have owner : m'.Of a (j.renumber ρ).owner := by
      obtain ⟨i, hi, ha⟩ := ho
      exact ⟨_, M.get? hi ha, ha⟩
    exact (A.job? owner).mp (M.job? hj ho)
  registered := A.registered.symm.trans M.registered
  store := M.store.trans A.store

end Matches

/-- What is new in the one machine is numbered as what is new in the other. -/
def across (m m' : Machine) : Renumbering where
  id := recount m.instances.length m'.instances.length
  job := recount (m.jobs.length + 1) (m'.jobs.length + 1)
  place := recount m.named.length m'.named.length

theorem spared_across (m m' : Machine) : Spared (across m m') m :=
  ⟨fun h => recount_of_lt h, fun h => recount_of_lt (Nat.lt_succ_of_le h)⟩

/-- Machines that agree on an item are twins in it. -/
theorem Agrees.twins (A : Agrees a m m') (O : Owns a m) (hs : m'.setting = m.setting)
    (quiet : m.hooks = ([], [], []))
    (owners : ∀ {n : Nat} {j : Job}, m.job? n = some j → j.owner < m.instances.length) :
    Twins a (across m m') m m' :=
  have spared := spared_across m m'
  { A.matches O spared, O with
    setting := hs
    quiet := quiet
    owners := owners
    id_inj := fun hk hl e => by rwa [spared.id hk.lt, spared.id hl.lt] at e
    job_inj := fun hk hl e => by rwa [spared.job hk.le, spared.job hl.le] at e
    id_next := fun k => recount_add _ _ k
    job_next := fun k => recount_add _ _ k
    place_next := fun k => recount_add _ _ k }

end Matching

namespace Twins

variable {a : Uuid} {ρ : Renumbering} {m m' : Machine} {id n k : Nat} {i : Instance}

theorem of (T : Twins a ρ m m') (h : m.Of a id) : m'.Of a (ρ.id id) := by
  obtain ⟨i, hi, ha⟩ := h
  exact ⟨_, T.get? hi ha, ha⟩

theorem jobOf (T : Twins a ρ m m') (h : m.JobOf a n) : m'.JobOf a (ρ.job n) := by
  obtain ⟨j, hj, ho⟩ := h
  exact ⟨_, T.job? hj ho, T.of ho⟩

/-- As much is new in the one as in the other. -/
theorem instances_length {base base' : Machine} {x : Nat} (T : Twins a (across base base') m m')
    (h : m.instances.length = base.instances.length + x) :
    m'.instances.length = base'.instances.length + x := by
  have next := T.id_next 0
  rw [h] at next
  exact next.symm.trans (recount_add _ _ _)

theorem jobs_length {base base' : Machine} {x : Nat} (T : Twins a (across base base') m m')
    (h : m.jobs.length = base.jobs.length + x) : m'.jobs.length = base'.jobs.length + x := by
  have next := T.job_next 0
  rw [h, Nat.add_zero, Nat.add_right_comm _ x 1] at next
  have := next.symm.trans (recount_add _ _ _)
  omega

/-! ## What twins answer alike -/

theorem has (T : Twins a ρ m m') (d : Defect) : m'.has d = m.has d :=
  congrArg (fun s => s.defects.contains d) T.setting

theorem entity? (T : Twins a ρ m m') (localId : UInt32) : m'.entity? localId = m.entity? localId :=
  congrArg (fun s => s.entities.lookup localId) T.setting

theorem stopTimeout (T : Twins a ρ m m') : m'.stopTimeout = m.stopTimeout :=
  congrArg Setting.stopTimeout T.setting

theorem quiet' (T : Twins a ρ m m') : m'.hooks = ([], [], []) :=
  (congrArg Setting.hooks T.setting).trans T.quiet

section Jobs

variable (T : Twins a ρ m m') (h : m.JobOf a n)

include T h

theorem canCancel : m'.canCancel (ρ.job n) = m.canCancel n := by
  obtain ⟨j, hj, ho⟩ := h
  have refuses : m'.refusesCancel = m.refusesCancel := congrArg Setting.refusesCancel T.setting
  unfold Machine.canCancel
  rw [T.job? hj ho, hj, refuses]
  rfl

theorem finished : m'.finished (ρ.job n) = m.finished n := by
  obtain ⟨j, hj, ho⟩ := h
  unfold Machine.finished
  rw [T.job? hj ho, hj]
  rfl

theorem interrupted : m'.interrupted (ρ.job n) = m.interrupted n := by
  obtain ⟨j, hj, ho⟩ := h
  unfold Machine.interrupted
  rw [T.job? hj ho, hj]
  rfl

end Jobs

theorem size (T : Twins a ρ m m') : m'.size a = m.size a := by
  unfold Machine.size
  rw [T.has, T.store.size]

theorem read (T : Twins a ρ m m') : m'.read a = m.read a := by
  unfold Machine.read
  rw [T.has, T.store.read]

/-! ## What leaves them twins -/

theorem note (T : Twins a ρ m m') (x y : Note) : Twins a ρ (m.note x) (m'.note y) :=
  { T with }

/-- The item's instance changes, in both alike. -/
theorem modify {f g : Instance → Instance} (T : Twins a ρ m m') (h : m.Of a id)
    (hi : ∀ i, (f i).item = i.item) (hg : ∀ i, (f i).renumber ρ = g (i.renumber ρ))
    (hc : ∀ i turn, m.get? id = some i → (f i).slot.current = some turn → m.JobOf a turn.job) :
    Twins a ρ (m.modify id f) (m'.modify (ρ.id id) g) := by
  have of_iff : ∀ {k}, (m.modify id f).Of a k ↔ m.Of a k := of_modify hi
  refine { T with
    get? := ?_, job? := fun hj ho => T.job? hj (of_iff.mp ho)
    listed := fun hr => of_iff.mpr (T.listed hr), booked := ?_, owners := ?_
    id_inj := fun hk hl => T.id_inj (of_iff.mp hk) (of_iff.mp hl), job_inj := ?_, id_next := ?_ }
  · intro k i hk ha
    rw [get?_modify] at hk
    split at hk
    · next he =>
      subst he
      obtain ⟨i₀, hi₀, rfl⟩ := Option.map_eq_some_iff.mp hk
      rw [get?_modify_self, T.get? hi₀ ((hi i₀).symm.trans ha), hg]
      rfl
    · next hne =>
      have apart : ρ.id id ≠ ρ.id k := fun e => hne (T.id_inj h ⟨i, hk, ha⟩ e)
      rw [get?_modify, if_neg apart, T.get? hk ha]
  · intro k i turn hk ha ht
    have before : m.JobOf a turn.job := by
      rw [get?_modify] at hk
      split at hk
      · next he =>
        subst he
        obtain ⟨i₀, hi₀, rfl⟩ := Option.map_eq_some_iff.mp hk
        exact hc i₀ turn hi₀ ht
      · exact T.booked hk ha ht
    obtain ⟨j, hj, ho⟩ := before
    exact ⟨j, hj, of_iff.mpr ho⟩
  · intro n j hj
    have := T.owners hj
    simpa [Machine.modify] using this
  · rintro k l ⟨j, hj, ho⟩ ⟨j', hj', ho'⟩
    exact T.job_inj ⟨j, hj, of_iff.mp ho⟩ ⟨j', hj', of_iff.mp ho'⟩
  · intro k
    simpa [Machine.modify] using T.id_next k

/-- A change that gives the instance no other turn. -/
theorem revise {f : Instance → Instance} (T : Twins a ρ m m') (h : m.Of a id)
    (hi : ∀ i, (f i).item = i.item) (hg : ∀ i, (f i).renumber ρ = f (i.renumber ρ))
    (hc : ∀ i, (f i).slot.current = i.slot.current ∨ (f i).slot.current = none) :
    Twins a ρ (m.modify id f) (m'.modify (ρ.id id) f) := by
  refine T.modify h hi hg fun i turn hk ht => ?_
  obtain ⟨i₀, hi₀, ha⟩ := h
  obtain rfl := Option.some.inj (hk.symm.trans hi₀)
  rcases hc i with he | he
  · exact T.booked hk ha (he ▸ ht)
  · cases he.symm.trans ht

/-- The item's job changes, in both alike. -/
theorem modifyJob {f : Job → Job} (T : Twins a ρ m m') (h : m.JobOf a n)
    (ho : ∀ j, (f j).owner = j.owner) (hg : ∀ j, (f j).renumber ρ = f (j.renumber ρ)) :
    Twins a ρ (m.modifyJob n f) (m'.modifyJob (ρ.job n) f) := by
  have owner : ∀ {k j}, (m.modifyJob n f).job? k = some j →
      ∃ j₀, m.job? k = some j₀ ∧ j₀.owner = j.owner := by
    intro k j hk
    rw [job?_modifyJob f h.pos] at hk
    split at hk
    · obtain ⟨j₀, hj₀, rfl⟩ := Option.map_eq_some_iff.mp hk
      exact ⟨j₀, hj₀, (ho j₀).symm⟩
    · exact ⟨j, hk, rfl⟩
  have jobOf_iff : ∀ {k}, (m.modifyJob n f).JobOf a k → m.JobOf a k := by
    rintro k ⟨j, hj, hj'⟩
    obtain ⟨j₀, hj₀, e⟩ := owner hj
    exact ⟨j₀, hj₀, e ▸ hj'⟩
  refine { T with
    job? := ?_, booked := ?_, owners := ?_
    job_inj := fun hk hl => T.job_inj (jobOf_iff hk) (jobOf_iff hl), job_next := ?_ }
  · intro k j hk hj
    rw [job?_modifyJob f h.pos] at hk
    split at hk
    · next he =>
      subst he
      obtain ⟨j₀, hj₀, rfl⟩ := Option.map_eq_some_iff.mp hk
      rw [job?_modifyJob f (T.jobOf h).pos, if_pos rfl, T.job? hj₀ (ho j₀ ▸ hj), hg]
      rfl
    · next hne =>
      have apart : ρ.job n ≠ ρ.job k := fun e => hne (T.job_inj h ⟨j, hk, hj⟩ e)
      rw [job?_modifyJob f (T.jobOf h).pos, if_neg apart, T.job? hk hj]
  · intro k i turn hk ha ht
    obtain ⟨j, hj, hj'⟩ := T.booked hk ha ht
    have after : (m.modifyJob n f).job? turn.job =
        if n = turn.job then some (f j) else some j := by
      rw [job?_modifyJob f h.pos, hj, Option.map_some]
    split at after
    · exact ⟨_, after, (ho j).symm ▸ hj'⟩
    · exact ⟨_, after, hj'⟩
  · intro k j hk
    obtain ⟨j₀, hj₀, e⟩ := owner hk
    exact e ▸ T.owners hj₀
  · intro k
    simpa [Machine.modifyJob] using T.job_next k

theorem setPhase (T : Twins a ρ m m') (h : m.JobOf a n) (p : Phase) :
    Twins a ρ (m.setPhase n p) (m'.setPhase (ρ.job n) p) :=
  T.modifyJob h (fun _ => rfl) fun _ => rfl

theorem trip (T : Twins a ρ m m') (h : m.JobOf a n) :
    Twins a ρ (m.trip n) (m'.trip (ρ.job n)) :=
  T.modifyJob h (fun _ => rfl) fun _ => rfl

/-- The pool is given a turn of the item's, which gets the next number in both. -/
theorem appendJob {j : Job} (T : Twins a ρ m m') (h : m.Of a j.owner) :
    Twins a ρ { m with jobs := m.jobs ++ [j] } { m' with jobs := m'.jobs ++ [j.renumber ρ] } := by
  have next : ρ.job (m.jobs.length + 1) = m'.jobs.length + 1 := T.job_next 0
  have old : ∀ {k}, m.JobOf a k → ρ.job k < m'.jobs.length + 1 := fun hk => by
    have := (T.jobOf hk).le
    omega
  have jobOf_iff : ∀ {k}, ({ m with jobs := m.jobs ++ [j] } : Machine).JobOf a k →
      k = m.jobs.length + 1 ∨ m.JobOf a k := by
    rintro k ⟨j', hj, ho⟩
    rw [job?_append] at hj
    split at hj
    · next he => exact .inl he
    · exact .inr ⟨j', hj, ho⟩
  refine { T with job? := ?_, booked := ?_, owners := ?_, job_inj := ?_, job_next := ?_ }
  · intro k j' hk ho
    rw [job?_append] at hk ⊢
    split at hk
    · next he =>
      obtain rfl := Option.some.inj hk
      rw [he, if_pos next]
    · have := old ⟨j', hk, ho⟩
      rw [if_neg (by omega)]
      exact T.job? hk ho
  · intro k i turn hk ha ht
    obtain ⟨j', hj, ho⟩ := T.booked hk ha ht
    have := JobOf.le ⟨j', hj, ho⟩
    refine ⟨j', ?_, ho⟩
    rw [job?_append, if_neg (by omega)]
    exact hj
  · intro k j' hk
    rw [job?_append] at hk
    split at hk
    · obtain rfl := Option.some.inj hk
      exact h.lt
    · exact T.owners hk
  · intro k l hk hl e
    rcases jobOf_iff hk with rfl | hk <;> rcases jobOf_iff hl with rfl | hl
    · rfl
    · have := old hl
      omega
    · have := old hk
      omega
    · exact T.job_inj hk hl e
  · intro k
    have := T.job_next (k + 1)
    simp only [List.length_append, List.length_singleton]
    rw [show m.jobs.length + 1 + 1 + k = m.jobs.length + 1 + (k + 1) by omega, this]
    omega

/-- The pool is asked for a turn. -/
theorem requestTurn (T : Twins a ρ m m') (h : m.Of a id) :
    Twins a ρ (m.requestTurn id) (m'.requestTurn (ρ.id id)) := by
  obtain ⟨i, hi, ha⟩ := h
  have next : ρ.job (m.jobs.length + 1) = m'.jobs.length + 1 := T.job_next 0
  have given := T.appendJob (j := ⟨id, i.slot.lastTicket + 1, .queued, false⟩) ⟨i, hi, ha⟩
  have taken := given.modify (f := (·.occupy (m.jobs.length + 1)))
    (g := (·.occupy (m'.jobs.length + 1))) ⟨i, hi, ha⟩ (fun _ => rfl)
    (fun i => by rw [← next]; rfl) fun i' turn hi' ht => by
      obtain rfl := Option.some.inj ht
      refine ⟨_, (job?_append _).trans (if_pos rfl), i, hi, ha⟩
  unfold Machine.requestTurn
  rw [hi, T.get? hi ha]
  exact (taken.note _ _).note _ _

/-- A new instance, which gets the next number in both. -/
theorem append (T : Twins a ρ m m') (hc : i.slot.current = none) :
    Twins a ρ { m with instances := m.instances ++ [i] }
      { m' with instances := m'.instances ++ [i] } := by
  have next : ρ.id m.instances.length = m'.instances.length := T.id_next 0
  have old : ∀ {k}, m.Of a k → ρ.id k < m'.instances.length := fun hk => (T.of hk).lt
  have of_mono : ∀ {k}, m.Of a k →
      ({ m with instances := m.instances ++ [i] } : Machine).Of a k := by
    rintro k ⟨i', hi, h⟩
    refine ⟨i', ?_, h⟩
    have := Of.lt ⟨i', hi, h⟩
    rw [get?_append, if_neg (by omega)]
    exact hi
  have of_cases : ∀ {k}, ({ m with instances := m.instances ++ [i] } : Machine).Of a k →
      k = m.instances.length ∨ m.Of a k := by
    rintro k ⟨i', hi, h⟩
    rw [get?_append] at hi
    split at hi
    · next he => exact .inl he
    · exact .inr ⟨i', hi, h⟩
  have owned : ∀ {n j}, m.job? n = some j →
      ({ m with instances := m.instances ++ [i] } : Machine).Of a j.owner → m.Of a j.owner := by
    intro n j hj ho
    have := T.owners hj
    rcases of_cases ho with he | ho
    · omega
    · exact ho
  refine { T with
    get? := ?_, job? := fun hj ho => T.job? hj (owned hj ho)
    listed := fun hr => of_mono (T.listed hr), booked := ?_, owners := ?_
    id_inj := ?_, job_inj := ?_, id_next := ?_ }
  · intro k i' hk h
    rw [get?_append] at hk ⊢
    split at hk
    · next he =>
      obtain rfl := Option.some.inj hk
      rw [he, if_pos next, Instance.renumber_eq_self (by simp [hc])]
    · have := old ⟨i', hk, h⟩
      rw [if_neg (by omega)]
      exact T.get? hk h
  · intro k i' turn hk h ht
    rw [get?_append] at hk
    split at hk
    · obtain rfl := Option.some.inj hk
      cases hc.symm.trans ht
    · obtain ⟨j, hj, ho⟩ := T.booked hk h ht
      exact ⟨j, hj, of_mono ho⟩
  · intro n j hj
    have := T.owners hj
    simp only [List.length_append, List.length_singleton]
    omega
  · intro k l hk hl e
    rcases of_cases hk with rfl | hk <;> rcases of_cases hl with rfl | hl
    · rfl
    · have := old hl
      omega
    · have := old hk
      omega
    · exact T.id_inj hk hl e
  · rintro k l ⟨j, hj, ho⟩ ⟨j', hj', ho'⟩
    exact T.job_inj ⟨j, hj, owned hj ho⟩ ⟨j', hj', owned hj' ho'⟩
  · intro k
    have := T.id_next (k + 1)
    simp only [List.length_append, List.length_singleton]
    rw [show m.instances.length + 1 + k = m.instances.length + (k + 1) by omega, this]
    omega

theorem enlist {name : String} {place : Nat} (T : Twins a ρ m m') :
    Twins a ρ (m.enlist name id place) (m'.enlist name (ρ.id id) (ρ.place place)) :=
  { T with
    place_next := fun k => by
      have grown : ∀ (m : Machine) id place,
          (m.enlist name id place).named.length = m.named.length + 1 := by
        intro m id place
        simp only [Machine.enlist, List.length_append, List.length_cons, List.length_take,
          List.length_drop]
        omega
      rw [grown, grown, Nat.add_right_comm, Nat.add_assoc, T.place_next (k + 1)]
      omega }

theorem unregister (T : Twins a ρ m m') : Twins a ρ (m.unregister a) (m'.unregister a) :=
  { T with registered := by simp, listed := by simp }

theorem register (T : Twins a ρ m m') (h : m.Of a id) :
    Twins a ρ (m.register a id) (m'.register a (ρ.id id)) :=
  { T with
    registered := by simp
    listed := fun hr => by
      rw [registered?_register_self] at hr
      exact Option.some.inj hr ▸ h }

/-- The stores change, and agree on the item as before. -/
theorem restore {d d' : DocumentStore} (T : Twins a ρ m m') (h : DocumentStore.Agrees a d d') :
    Twins a ρ { m with store := d } { m' with store := d' } :=
  { T with store := h }

theorem write (T : Twins a ρ m m') (data : Bytes) :
    Twins a ρ (m.write a data).1 (m'.write a data).1 ∧ (m'.write a data).2 = (m.write a data).2 := by
  have noted := T.note (.write a data.length) (.write a data.length)
  have results := T.store.write data
  unfold Machine.write
  simp only [noted.has]
  split
  · exact ⟨noted, rfl⟩
  · split
    · exact ⟨noted, rfl⟩
    · change DocumentStore.Agree a ((m.note (.write a data.length)).store.write a data)
        ((m'.note (.write a data.length)).store.write a data) at results
      generalize (m.note (.write a data.length)).store.write a data = x,
        (m'.note (.write a data.length)).store.write a data = y at results
      cases x <;> cases y <;> first | exact results.elim | skip
      · obtain rfl : _ = _ := results
        exact ⟨noted, rfl⟩
      · have stored := noted.restore results
        simp only [results.isFiles]
        refine ⟨?_, trivial⟩
        split
        · exact stored.note _ _
        · exact stored

theorem remove (T : Twins a ρ m m') :
    Twins a ρ (m.remove a).1 (m'.remove a).1 ∧ (m'.remove a).2 = (m.remove a).2 := by
  have noted := T.note (.remove a) (.remove a)
  have results := T.store.remove
  unfold Machine.remove
  simp only [noted.has]
  split
  · exact ⟨noted, rfl⟩
  · change DocumentStore.Agree a ((m.note (.remove a)).store.remove a)
      ((m'.note (.remove a)).store.remove a) at results
    generalize (m.note (.remove a)).store.remove a = x,
      (m'.note (.remove a)).store.remove a = y at results
    cases x <;> cases y <;> first | exact results.elim | skip
    · obtain rfl : _ = _ := results
      exact ⟨noted, rfl⟩
    · exact ⟨noted.restore results, rfl⟩

end Twins

end Machine

end ScriptHost
