import ScriptHost.Proofs.Engine.Ending
import ScriptHost.Proofs.Engine.Lockstep
import ScriptHost.Proofs.Engine.Replacement

/-!
# Scripts do not interfere

A deed is something that is done to one script, from its beginning to its end: an
operation on the engine, an operation on an instance, or the run of one of its jobs by a
worker. Deeds on two items may be done in either order (`deeds_commute`): both
answer the same, and all instances, jobs, entries of the registry and stored
documents come out the same, up to the numbers of instances and jobs.

Collaborators must not call back meanwhile: what they would call is a third deed,
and it depends on who of the two comes first whether it is called in the course of the
one or of the other.
-/

namespace ScriptHost

/-- An operation on the engine, an operation on an instance, or the run of a job. -/
inductive Deed where
  | engine (o : Op)
  | call (id : Nat) (o : Op)
  | turn (n : Nat)

namespace Machine

/-- The machine on which a deed begins, and the thread that carries it out. -/
def attempt? (m : Machine) : Deed → Option (Machine × Thread)
  | .engine o => some (m, .ofOp o)
  | .call id o => m.begin? id (.call o)
  | .turn n => (m.job? n).bind fun j =>
    if j.phase = .queued then some (m.setPhase n .running, .ofJob j.owner j.ticket n) else none

/-- The deed is done to the item. A turn must have a handler that is secluded. -/
def Concerns (m : Machine) (a : Uuid) : Deed → Prop
  | .engine o => o.item? = some a
  | .call id _ => m.Of a id
  | .turn n => ∃ j, m.job? n = some j ∧ m.Tame a j.owner

/-- The deed is carried out from its beginning to its end, and nothing else happens. -/
def Does (m : Machine) (d : Deed) (r : Reply) (m' : Machine) : Prop :=
  ∃ n t fuel, m.attempt? d = some (n, t) ∧ t.run fuel n = (m', ⟨[], r⟩)

/-- The deed comes to its end. -/
def Ends (m : Machine) (d : Deed) : Prop := ∃ r m', m.Does d r m'

/-- Under the new numbers, the one machine is the other; what has been noted, and the names of
instances, are left aside. -/
structure Renumbers (ρ : Renumbering) (m m' : Machine) : Prop where
  setting : m'.setting = m.setting
  get? : ∀ id, m'.get? (ρ.id id) = (m.get? id).map (·.renumber ρ)
  job? : ∀ n, m'.job? (ρ.job n) = (m.job? n).map (·.renumber ρ)
  registered : ∀ c, m'.registered? c = (m.registered? c).map ρ.id
  store : ∀ c, DocumentStore.Agrees c m.store m'.store

variable {a : Uuid} {ρ : Renumbering} {m m' m'' n : Machine} {d : Deed} {r r' : Reply}

/-! ## Deeds one at a time -/

/-- A deed comes to one end only. -/
theorem Does.unique (h : m.Does d r m') (h' : m.Does d r' m'') : r = r' ∧ m' = m'' := by
  obtain ⟨n, t, k, hn, hk⟩ := h
  obtain ⟨n', t', l, hn', hl⟩ := h'
  obtain ⟨rfl, rfl⟩ : n = n' ∧ t = t' := by simpa using hn.symm.trans hn'
  have both : ∀ {k l r m' r' m''}, t.run k n = (m', ⟨[], r⟩) → t.run l n = (m'', ⟨[], r'⟩) →
      k ≤ l → r = r' ∧ m' = m'' := by
    intro k l r m' r' m'' hk hl hle
    obtain ⟨d, rfl⟩ := Nat.exists_eq_add_of_le hle
    rw [Thread.run_add, hk, Thread.run_of_none (t := ⟨[], r⟩) rfl] at hl
    simpa [and_comm] using hl
  rcases Nat.le_total k l with hle | hle
  · exact both hk hl hle
  · exact (both hl hk hle).imp Eq.symm Eq.symm

/-- Operations end; whether a turn does is up to its handler, and to who holds its script. -/
theorem Concerns.ends (hc : m.Concerns a d) (quiet : m.hooks = ([], [], []))
    (turns : ∀ k, d = .turn k → m.Ends d) : m.Ends d := by
  cases d with
  | engine o =>
    obtain ⟨fuel, m', r, h⟩ := ends_engine quiet (Option.isSome_iff_exists.mpr ⟨a, hc⟩)
    exact ⟨r, m', _, _, fuel, rfl, h⟩
  | call id o =>
    obtain ⟨i, hi, -⟩ := hc
    obtain ⟨fuel, m', r, h⟩ := ends_call quiet id i o
    exact ⟨r, m', _, _, fuel, by simp only [attempt?, begin?, hi, Option.map_some], h⟩
  | turn k => exact turns k rfl

theorem extends_onInstance (m : Machine) (id : Nat) (i : Instance) (o : Op) :
    m.Extends (m.onInstance id i o).1 where
  get? hk := by
    obtain ⟨s, p, h⟩ := spares_onInstance m id i o _ _ hk
    exact ⟨_, h, rfl, rfl⟩
  job? hj := by
    cases o <;> exact ⟨_, hj, rfl⟩

theorem extends_attempt {t : Thread} (h : m.attempt? d = some (n, t)) : m.Extends n := by
  cases d with
  | engine o =>
    cases h
    exact .refl m
  | call id o =>
    obtain ⟨i, hi, he⟩ := Option.map_eq_some_iff.mp h
    cases he
    exact extends_onInstance m id i o
  | turn k =>
    obtain ⟨j, hj, h⟩ := Option.bind_eq_some_iff.mp h
    split at h
    · cases h
      exact extends_setPhase m k .running
    · cases h

theorem Does.extends (h : m.Does d r m') : m.Extends m' := by
  obtain ⟨n, t, fuel, hn, ht⟩ := h
  have := extends_run fuel n t
  rw [ht] at this
  exact (extends_attempt hn).trans this

theorem Extends.instances_le (E : m.Extends m') : m.instances.length ≤ m'.instances.length := by
  by_contra hlt
  have bound : m'.instances.length < m.instances.length := by omega
  have there : m.get? m'.instances.length = some m.instances[m'.instances.length] :=
    List.getElem?_eq_getElem bound
  obtain ⟨i, hi, -⟩ := E.get? there
  exact Nat.lt_irrefl _ (List.getElem?_eq_some_iff.mp hi).1

theorem Extends.jobs_le (E : m.Extends m') : m.jobs.length ≤ m'.jobs.length := by
  by_contra hlt
  have bound : m'.jobs.length < m.jobs.length := by omega
  have there : m.job? (m'.jobs.length + 1) = some m.jobs[m'.jobs.length] := by
    simp [Machine.job?, List.getElem?_eq_getElem bound]
  obtain ⟨j, hj, -⟩ := E.job? there
  have := Core.job?_le (c := m'.core) hj
  have : m'.core.jobs.length = m'.jobs.length := rfl
  omega

/-- What has been there all the time has always been the item's. -/
theorem Extends.of_back {c : Uuid} {k : Nat} (E : m.Extends m') (h : m'.Of c k)
    (hk : k < m.instances.length) : m.Of c k := by
  have there : m.get? k = some m.instances[k] := List.getElem?_eq_getElem hk
  obtain ⟨i, hi, he, -⟩ := E.get? there
  exact ⟨_, there, (Of.item_unique ⟨i, hi, rfl⟩ h ▸ he).symm⟩

theorem Extends.jobOf_back {c : Uuid} {k : Nat} (E : m.Extends m')
    (owners : ∀ {n : Nat} {j : Job}, m.job? n = some j → j.owner < m.instances.length)
    (h : m'.JobOf c k) (hk : k ≤ m.jobs.length) : m.JobOf c k := by
  obtain ⟨j', hj', ho'⟩ := h
  have pos := JobOf.pos ⟨j', hj', ho'⟩
  have bound : k - 1 < m.jobs.length := by omega
  have there : m.job? k = some m.jobs[k - 1] := by
    unfold Machine.job?
    rw [if_neg (by omega), List.getElem?_eq_getElem]
  obtain ⟨j, hj, ho⟩ := E.job? there
  obtain rfl := Option.some.inj (hj.symm.trans hj')
  exact ⟨_, there, E.of_back (ho ▸ ho') (owners there)⟩

/-- A deed that can be begun on a machine can be begun on its twin, as long as it is about what
has the same number in both. -/
theorem Twins.attempt {t : Thread} (T : Twins a ρ m m') (S : Spared ρ m) (hc : m.Concerns a d)
    (h : m.attempt? d = some (n, t)) : ∃ n', m'.attempt? d = some (n', t.renumber ρ) ∧
      InStep a ρ m m' n n' ∧ ∀ x ∈ t.agenda, x.Within n a := by
  have E := extends_attempt h
  cases d with
  | engine o =>
    cases h
    exact ⟨m', rfl, .refl T, List.forall_mem_singleton.mpr hc⟩
  | call id o =>
    obtain ⟨i, hi, ha⟩ := hc
    have hi' := T.get? hi ha
    have done := Done.InStep.onInstance (.refl T) hi ha o
    rw [S.id (Of.lt ⟨i, hi, ha⟩)] at hi' done
    simp only [attempt?, begin?, hi, Option.map_some, Option.some.injEq, Prod.mk.injEq] at h
    obtain ⟨rfl, rfl⟩ := h
    refine ⟨_, ?_, done.machine, done.within E⟩
    have next : (m'.onInstance id (i.renumber ρ) o).2.1 = _ := done.next
    have reply : (m'.onInstance id (i.renumber ρ) o).2.2 = _ := done.reply
    simp only [attempt?, begin?, hi', Option.map_some, Thread.renumber, next, reply]
    rfl
  | turn k =>
    obtain ⟨j, hj, tame⟩ := hc
    have hj' := T.job? hj tame.of
    have mine : m.JobOf a k := ⟨j, hj, tame.of⟩
    have started := (InStep.refl T).setPhase mine .running
    rw [S.job mine.le] at hj' started
    simp only [attempt?, hj, Option.bind_some] at h
    split at h
    · next hq =>
      simp only [Option.some.injEq, Prod.mk.injEq] at h
      obtain ⟨rfl, rfl⟩ := h
      refine ⟨_, ?_, started, ?_⟩
      · have queued : (j.renumber ρ).phase = .queued := hq
        simp only [attempt?, hj', Option.bind_some, queued, if_true, Thread.renumber, Thread.ofJob,
          List.map_cons, List.map_nil, Instr.renumber, S.job mine.le, Job.renumber_owner,
          Job.renumber_ticket]
      · exact List.forall_mem_cons.mpr ⟨⟨E.tame tame, E.jobOf mine⟩,
          List.forall_mem_singleton.mpr (E.jobOf mine)⟩
    · cases h

/-- A deed that is done on a machine can be done on its twin, to the same end. -/
theorem Twins.does (T : Twins a ρ m m') (S : Spared ρ m) (hc : m.Concerns a d)
    (h : m.Does d r n) : ∃ n', m'.Does d r n' ∧ InStep a ρ m m' n n' := by
  obtain ⟨s, t, fuel, hn, ht⟩ := h
  obtain ⟨s', hn', B, within⟩ := T.attempt S hc hn
  obtain ⟨B', ended⟩ := B.run within fuel
  rw [ht] at B' ended
  exact ⟨_, ⟨s', _, fuel, hn', Prod.ext rfl ended⟩, B'⟩

/-- What is not changed of an item is no matter to the deeds done to it. -/
theorem Concerns.of_agrees {c : Uuid} (h : m.Concerns c d) (A : Agrees c m n) :
    n.Concerns c d := by
  cases d with
  | engine o => exact h
  | call id o => exact A.of.mp h
  | turn k =>
    obtain ⟨j, hj, i, hi, hc, hs⟩ := h
    exact ⟨j, (A.job? ⟨i, hi, hc⟩).mp hj, i, (A.get? hc).mp hi, hc, hs⟩

/-- A machine matches another in everything if it does so in every item. -/
theorem renumbers_of_matches (hs : m'.setting = m.setting) (M : ∀ c, Matches c ρ m m')
    (owners : ∀ {n : Nat} {j : Job}, m.job? n = some j → j.owner < m.instances.length)
    (hid : ∀ k, m.instances.length ≤ k → m'.instances.length ≤ ρ.id k)
    (hjob : ∀ k, k = 0 ∨ m.jobs.length < k → ρ.job k = 0 ∨ m'.jobs.length < ρ.job k) :
    Renumbers ρ m m' where
  setting := hs
  get? id := by
    cases hi : m.get? id with
    | some i => exact (M i.item).get? hi rfl
    | none =>
      have := hid id (List.getElem?_eq_none_iff.mp hi)
      exact List.getElem?_eq_none this
  job? n := by
    cases hj : m.job? n with
    | some j =>
      have bound := owners hj
      have owner : m.get? j.owner = some m.instances[j.owner] := List.getElem?_eq_getElem bound
      exact (M _).job? hj ⟨_, owner, rfl⟩
    | none =>
      have past : n = 0 ∨ m.jobs.length < n := by
        unfold Machine.job? at hj
        split at hj
        · next h => exact .inl h
        · have := List.getElem?_eq_none_iff.mp hj
          omega
      unfold Machine.job?
      rcases hjob n past with h | h
      · rw [h]
        rfl
      · rw [if_neg (by omega), List.getElem?_eq_none (by omega)]
        rfl
  registered c := (M c).registered
  store c := (M c).store

/-! ## Two deeds in either order -/

/-- What is new by the first of two deeds and what is new by the second change places. -/
def exchanged (m₀ m₁ m₂ : Machine) : Renumbering where
  id := exchange m₀.instances.length (m₁.instances.length - m₀.instances.length)
    (m₂.instances.length - m₁.instances.length)
  job := exchange (m₀.jobs.length + 1) (m₁.jobs.length - m₀.jobs.length)
    (m₂.jobs.length - m₁.jobs.length)
  place := id

theorem spared_exchanged (m₀ m₁ m₂ : Machine) : Spared (exchanged m₀ m₁ m₂) m₀ :=
  ⟨fun h => exchange_of_lt h, fun h => exchange_of_lt (Nat.lt_succ_of_le h)⟩

section Reordered

variable {b : Uuid} {m₀ m₁ m₂ n₁ n₂ : Machine} (E : m₀.Extends m₁) (E' : m₁.Extends m₂)
  (Ia : InStep a (across m₀ n₁) m₀ n₁ m₁ n₂) (Ib : InStep b (across m₁ m₀) m₁ m₀ m₂ n₁)

include E E' Ia Ib

theorem InStep.lengths : n₁.instances.length =
      m₀.instances.length + (m₂.instances.length - m₁.instances.length) ∧
    n₁.jobs.length = m₀.jobs.length + (m₂.jobs.length - m₁.jobs.length) ∧
    n₂.instances.length = m₂.instances.length ∧ n₂.jobs.length = m₂.jobs.length := by
  have ids := E.instances_le
  have ids' := E'.instances_le
  have jobs := E.jobs_le
  have jobs' := E'.jobs_le
  have n₁_ids := Ib.twins.instances_length
    (show _ = _ + (m₂.instances.length - m₁.instances.length) by omega)
  have n₁_jobs := Ib.twins.jobs_length
    (show _ = _ + (m₂.jobs.length - m₁.jobs.length) by omega)
  have n₂_ids := Ia.twins.instances_length
    (show _ = _ + (m₁.instances.length - m₀.instances.length) by omega)
  have n₂_jobs := Ia.twins.jobs_length
    (show _ = _ + (m₁.jobs.length - m₀.jobs.length) by omega)
  omega

/-- What the first deed has left is matched by what it leaves when it comes second. -/
theorem InStep.matches_first (hne : a ≠ b) : Matches a (exchanged m₀ m₁ m₂) m₂ n₂ := by
  obtain ⟨n₁_ids, n₁_jobs, -⟩ := InStep.lengths E E' Ia Ib
  have := E.instances_le
  have := E.jobs_le
  refine (Ia.twins.congr Ia.twins.toOwns (fun {k} hk => ?_) fun {k} hk => ?_).left (Ib.left hne)
  · have := hk.lt
    simp only [across, exchanged, n₁_ids]
    exact exchange_first (by omega)
  · have := hk.le
    simp only [across, exchanged, n₁_jobs, Nat.add_right_comm _ _ 1]
    exact exchange_first (by omega)

theorem InStep.matches_second (hne : a ≠ b) (back : Agrees b m₀ m₁)
    (owners : ∀ {n : Nat} {j : Job}, m₁.job? n = some j → j.owner < m₁.instances.length) :
    Matches b (exchanged m₀ m₁ m₂) m₂ n₂ := by
  have ids := E.instances_le
  have jobs := E.jobs_le
  refine (Ib.twins.congr Ib.twins.toOwns (fun {k} hk => ?_) fun {k} hk => ?_).right
    (Ia.right hne.symm)
  · have bound := hk.lt
    have apart : k < m₀.instances.length ∨ m₁.instances.length ≤ k :=
      or_iff_not_imp_right.mpr fun h =>
        (back.of.mpr (E'.of_back hk (Nat.lt_of_not_le h))).lt
    have counted := exchange_second m₀.instances.length (m₁.instances.length - m₀.instances.length)
      (m₂.instances.length - m₁.instances.length) k (by omega) (by omega)
    rwa [Nat.add_sub_cancel' ids] at counted
  · have bound := hk.le
    have apart : k ≤ m₀.jobs.length ∨ m₁.jobs.length < k :=
      or_iff_not_imp_right.mpr fun h =>
        (back.symm.jobOf (E'.jobOf_back owners hk (Nat.le_of_not_lt h))).le
    have counted := exchange_second (m₀.jobs.length + 1) (m₁.jobs.length - m₀.jobs.length)
      (m₂.jobs.length - m₁.jobs.length) k (by omega) (by omega)
    rwa [Nat.add_right_comm, Nat.add_sub_cancel' jobs] at counted

/-- What two deeds leave, and what they leave in the other order. -/
theorem InStep.renumbers (hne : a ≠ b) (back : Agrees b m₀ m₁) (owns : ∀ c, Owns c m₀)
    (owners : ∀ {n : Nat} {j : Job}, m₁.job? n = some j → j.owner < m₁.instances.length) :
    m₂.Renumbers (exchanged m₀ m₁ m₂) n₂ := by
  obtain ⟨-, -, n₂_ids, n₂_jobs⟩ := InStep.lengths E E' Ia Ib
  have := E.instances_le
  have := E'.instances_le
  have := E.jobs_le
  have := E'.jobs_le
  refine renumbers_of_matches (Ia.twins.setting.trans Ib.setting.symm) (fun c => ?_)
    Ib.twins.owners (fun k hk => ?_) fun k hk => ?_
  · by_cases ha : c = a
    · exact ha ▸ InStep.matches_first E E' Ia Ib hne
    by_cases hb : c = b
    · exact hb ▸ InStep.matches_second E E' Ia Ib hne back owners
    have before : Agrees c m₀ n₂ := (Ib.right hb).trans (Ia.right ha)
    exact (before.matches (owns c) (spared_exchanged m₀ m₁ m₂)).left
      ((Ia.left ha).trans (Ib.left hb))
  · simp only [exchanged]
    rw [exchange_beyond (by omega)]
    omega
  · simp only [exchanged]
    rcases hk with rfl | hk
    · exact .inl (exchange_of_lt (Nat.succ_pos _))
    · rw [exchange_beyond (by omega)]
      omega

end Reordered

end Machine

namespace System

open Machine

variable {S : System} {a b : Uuid} {A B : Deed} {rA rB : Reply} {m₁ m₂ : Machine}

theorem Reachable.owns (R : Reachable S) (c : Uuid) : S.machine.Owns c where
  listed hr := by
    obtain ⟨h, H⟩ := R
    have L := H.accounted.listed
    obtain ⟨i, hi, he⟩ := L.own _ (L.lookup_iff.mp hr)
    rw [identities_getElem?] at hi
    obtain ⟨j, hj, rfl⟩ := Option.map_eq_some_iff.mp hi
    exact ⟨j, hj, he⟩
  booked hi ha hc := by
    obtain ⟨j, hj, rfl, -⟩ := R.coherent.booked.outstanding _ _ _ (slot_of_get? hi) hc
    exact ⟨j, hj, _, hi, ha⟩

theorem Reachable.owners (R : Reachable S) {n : Nat} {j : Job} (hj : S.machine.job? n = some j) :
    j.owner < S.machine.instances.length := by
  obtain ⟨s, hs, -⟩ := R.coherent.booked.owners n j hj
  have := (List.getElem?_eq_some_iff.mp hs).1
  simpa [core, slots] using this

/-- What two deeds come to in the one order, they come to in the other. -/
theorem Reachable.reordered (R : Reachable S) (calm : S.machine.hooks = ([], [], []))
    (hne : a ≠ b) (hA : S.machine.Concerns a A) (hB : S.machine.Concerns b B)
    (first : S.machine.Does A rA m₁) (second : m₁.Does B rB m₂) :
    ∃ n₁ n₂ ρ, S.machine.Does B rB n₁ ∧ n₁.Does A rA n₂ ∧ m₂.Renumbers ρ n₂ ∧
      S.machine.Spared ρ ∧ ρ.id.Bijective ∧ ρ.job.Bijective := by
  have ownsA := R.owns a
  have spared := spared_across S.machine
  obtain ⟨_, _, I₀⟩ := ((Agrees.refl a S.machine).twins ownsA rfl calm R.owners).does
    (spared _) hA first
  -- The second deed finds on `m₁` what it finds at first, so it can be done first.
  have back : Agrees b S.machine m₁ := I₀.left hne.symm
  obtain ⟨n₁, doneB, Ib⟩ := (back.symm.twins ((R.owns b).of_agrees back) I₀.setting.symm
    I₀.twins.quiet I₀.twins.owners).does (spared_across m₁ _) (hB.of_agrees back) second
  -- Then the first finds on `n₁` what it found at first.
  have setting : n₁.setting = S.machine.setting :=
    Ib.twins.setting.trans (Ib.setting.trans I₀.setting)
  obtain ⟨n₂, doneA, Ia⟩ := ((Ib.right hne).twins ownsA setting calm R.owners).does (spared _) hA
    first
  have renumbers := InStep.renumbers first.extends second.extends Ia Ib hne back R.owns
    I₀.twins.owners
  exact ⟨n₁, n₂, _, doneB, doneA, renumbers, spared_exchanged _ _ _, bijective_exchange _ _ _,
    bijective_exchange _ _ _⟩

/-- A deed is done after another as it would be done first. -/
theorem Reachable.does_after (R : Reachable S) (calm : S.machine.hooks = ([], [], []))
    (hne : a ≠ b) (hA : S.machine.Concerns a A) (hB : S.machine.Concerns b B)
    (first : S.machine.Does A rA m₁) (alone : S.machine.Does B rB m₂) :
    ∃ m', m₁.Does B rB m' := by
  obtain ⟨_, _, I⟩ := ((Agrees.refl a S.machine).twins (R.owns a) rfl calm R.owners).does
    (spared_across S.machine _) hA first
  obtain ⟨m', done, -⟩ := ((I.left hne.symm).twins (R.owns b) I.setting calm R.owners).does
    (spared_across S.machine _) hB alone
  exact ⟨m', done⟩

/-- Deeds on two items may be done in either order. -/
theorem deeds_commute (R : Reachable S) (calm : S.machine.hooks = ([], [], [])) (hne : a ≠ b)
    (hA : S.machine.Concerns a A) (hB : S.machine.Concerns b B)
    (turnA : ∀ n, A = .turn n → S.machine.Ends A) (turnB : ∀ n, B = .turn n → S.machine.Ends B) :
    ∃ rA rB m₁ m₂ n₁ n₂ ρ, S.machine.Does A rA m₁ ∧ m₁.Does B rB m₂ ∧
      S.machine.Does B rB n₁ ∧ n₁.Does A rA n₂ ∧ m₂.Renumbers ρ n₂ ∧ S.machine.Spared ρ ∧
      ρ.id.Bijective ∧ ρ.job.Bijective := by
  obtain ⟨rA, m₁, first⟩ := hA.ends calm turnA
  obtain ⟨rB, _, alone⟩ := hB.ends calm turnB
  obtain ⟨m₂, second⟩ := R.does_after calm hne hA hB first alone
  obtain ⟨n₁, n₂, ρ, reordered⟩ := R.reordered calm hne hA hB first second
  exact ⟨rA, rB, m₁, m₂, n₁, n₂, ρ, first, second, reordered⟩

/-- A host with two scripts on one entity. Each has a turn to come, and that of the first switches
its named state. -/
def neighbours : System :=
  (System.visits 40 ⟨.bare false, []⟩ [.loadNew "a" 1 (.answering [("state_entry",
    [.increment "n", .request (.setState "other")])]), .loadNew "b" 2 (.answering [])]).2

theorem deeds_commute_neighbours : neighbours.machine.hooks = ([], [], []) ∧
    neighbours.machine.Concerns (.ofNat 1) (.turn 1) ∧
    neighbours.machine.Concerns (.ofNat 2) (.call 1 (.reset "b")) ∧
    neighbours.machine.Ends (.turn 1) ∧
    ∃ rA rB m₁ m₂ n₁ n₂ ρ, neighbours.machine.Does (.turn 1) rA m₁ ∧
      m₁.Does (.call 1 (.reset "b")) rB m₂ ∧ neighbours.machine.Does (.call 1 (.reset "b")) rB n₁ ∧
      n₁.Does (.turn 1) rA n₂ ∧ m₂.Renumbers ρ n₂ ∧ neighbours.machine.Spared ρ ∧
      ρ.id.Bijective ∧ ρ.job.Bijective := by
  have calm : neighbours.machine.hooks = ([], [], []) := rfl
  have first : neighbours.machine.Concerns (.ofNat 1) (.turn 1) := by
    refine ⟨_, rfl, _, rfl, rfl, Program.secluded_answering fun name actions h x hx => ?_⟩
    obtain ⟨rfl, rfl⟩ := Prod.mk.inj (List.mem_singleton.mp h)
    simp only [List.mem_cons, List.not_mem_nil, or_false] at hx
    rcases hx with rfl | rfl <;> exact .simple rfl
  have second : neighbours.machine.Concerns (.ofNat 2) (.call 1 (.reset "b")) := ⟨_, rfl, rfl⟩
  have ends : neighbours.machine.Ends (.turn 1) := ⟨_, _, _, _, 40, rfl, rfl⟩
  have reachable : Reachable neighbours := ⟨_, Life.visits false 40 _⟩
  exact ⟨calm, first, second, ends, deeds_commute reachable calm (by decide) first second
    (fun n h => by cases h; exact ends) (by rintro n ⟨⟩)⟩

end System

end ScriptHost
