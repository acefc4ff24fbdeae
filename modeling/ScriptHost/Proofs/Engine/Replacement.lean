import ScriptHost.Proofs.Engine.Registry

/-!
# Replaced instances

Which of the instances that the engine has loaded are live, once nobody is at
a load or a stop of them? Those that are registered, those over which another
load of the item entered its own instance, and those that were started after
they had been taken out of the registry. `System.Accounted` says where every
instance stands on the way there.
-/

namespace ScriptHost

namespace Instr

/-- The instance that a section will enter into the registry, now or later. -/
def enrols? : Instr → Option Nat
  | .recoverSize id l | .recoverRead id l => if l.registers then some id else none
  | .register id => some id
  | _ => none

/-- The instance that somebody is about to stop, is waiting for, or is loading for the engine. -/
def manages? : Instr → Option Nat
  | .stop id _ => some id
  | a => (a.stops?.map (·.1)).or a.enrols?

theorem manages?_of_stops {a : Instr} {id : Nat} {turn : Turn} (h : a.stops? = some (id, turn)) :
    a.manages? = some id := by
  cases a <;> first | (cases h; rfl) | cases h

theorem manages?_of_enrols {a : Instr} {id : Nat} (h : a.enrols? = some id) :
    a.manages? = some id := by
  cases a with
  | recoverSize | recoverRead => exact h
  | register => exact h
  | _ => cases h

end Instr

def enrolling (l : List Instr) : List Nat := l.filterMap Instr.enrols?

theorem enrolling_append (l r : List Instr) : enrolling (l ++ r) = enrolling l ++ enrolling r := by
  simp [enrolling]

theorem mem_enrolling {l : List Instr} {id : Nat} :
    id ∈ enrolling l ↔ ∃ a ∈ l, a.enrols? = some id := by
  simp [enrolling]

theorem enrolling_bringsUp {id : Nat} {l : List Instr} (h : ∀ a ∈ l, a.bringsUp id = true) :
    enrolling l = [] := by
  rw [enrolling, List.filterMap_eq_nil_iff]
  intro a ha
  have := h a ha
  cases a <;> first | rfl | cases this

theorem enrolling_of_light {l : List Instr} (h : ∀ a ∈ l, a.light = true) : enrolling l = [] :=
  enrolling_bringsUp fun a ha => Instr.bringsUp_of_light 0 (h a ha)

theorem enrolling_finishLoad (id : Nat) (l : Loading) :
    enrolling (Instr.finishLoad id l) = if l.registers then [id] else [] := by
  unfold Instr.finishLoad
  cases l.registers <;> rfl

theorem Instr.Fits.enrols_lt {c : Core} {later : List Instr} {a : Instr} {id : Nat}
    (F : a.Fits c later) (h : a.enrols? = some id) : id < c.slots.length := by
  cases a with
  | recoverSize k l =>
    simp only [enrols?, Option.ite_none_right_eq_some, Option.some.injEq] at h
    exact h.2 ▸ F.lt
  | recoverRead k l =>
    simp only [enrols?, Option.ite_none_right_eq_some, Option.some.injEq] at h
    exact h.2 ▸ F.lt
  | register k => cases h; exact F
  | _ => cases h

section Enrolling

variable {m : Machine} {a : Instr} {c : Core} {next later : List Instr}

/-- A section that enters an instance into the registry is the last that will. -/
theorem Effect.of_register {id : Nat} (e : Effect m (.register id) c next)
    (F : Instr.Fits m.core later (.register id)) : next = [] ∧
      ∃ i, m.core.identities[id]? = some i ∧
        c.registered = (m.core.enter i.item id).registered := by
  cases e with
  | silent h => cases h
  | absent hsub hno =>
    cases hsub
    exact absurd F (Nat.not_lt.mpr (List.getElem?_eq_none_iff.mp (Machine.slots_of_get?_none hno)))
  | @register k i h => exact ⟨rfl, i, h, rfl⟩
  | fresh h => rcases h with h | h <;> cases h

/-- Other sections hand on what they will enter; only a load has a new instance to enter. -/
theorem Effect.enrolling_next (e : Effect m a c next) (F : a.Fits m.core later)
    (ha : ∀ id, a ≠ .register id) : enrolling next = enrolling [a] ∨
      (∃ l, a = .load l) ∧ enrolling next = [m.core.slots.length] := by
  have quiet : ∀ {l : List Instr}, (∀ b ∈ l, b.light = true) → enrolling l = [] :=
    fun h => enrolling_of_light h
  cases e with
  | silent h hn =>
    left
    rw [quiet hn]
    cases a <;> first | rfl | cases h
  | @absent _ k hsub hno =>
    left
    have gone : ¬ k < m.core.slots.length :=
      Nat.not_lt.mpr (List.getElem?_eq_none_iff.mp (Machine.slots_of_get?_none hno))
    cases a with
    | recoverSize n l => cases hsub; exact absurd F.lt gone
    | recoverRead n l => cases hsub; exact absurd F.lt gone
    | register n => exact absurd rfl (ha n)
    | _ => rfl
  | unregister _ h => exact .inl (quiet (by simpa [Instr.light] using h))
  | @reset k running => left; cases running <;> rfl
  | @wait k ms turn ops forced =>
    left
    rw [enrolling_append, quiet Instr.light_nested]; rfl
  | @create l =>
    cases hl : l.registers with
    | true => exact .inr ⟨⟨l, rfl⟩, by simp [enrolling, Instr.enrols?, hl]⟩
    | false => left; simp [enrolling, Instr.enrols?, hl]
  | @fresh _ k l h =>
    left
    rw [enrolling_append, enrolling_bringsUp Instr.bringsUp_freshStart, enrolling_finishLoad]
    rcases h with rfl | rfl <;> cases hl : l.registers <;> simp [enrolling, Instr.enrols?, hl]
  | @restore k l d =>
    left
    rw [enrolling_append, enrolling_bringsUp Instr.bringsUp_restore, enrolling_finishLoad]
    cases hl : l.registers <;> simp [enrolling, Instr.enrols?, hl]
  | takeSwitch _ _ _ _ h => left; rw [enrolling_append, quiet h]; rfl
  | @register k => exact absurd rfl (ha k)
  | _ => exact .inl rfl

theorem Effect.enrolling_cases (e : Effect m a c next) (F : a.Fits m.core later) :
    (∃ id, a = .register id ∧ next = []) ∨ (∀ id, a ≠ .register id) ∧
      (enrolling next = enrolling [a] ∨
        (∃ l, a = .load l) ∧ enrolling next = [m.core.slots.length]) := by
  by_cases ha : ∃ id, a = .register id
  · obtain ⟨id, rfl⟩ := ha
    exact .inl ⟨id, rfl, (e.of_register F).1⟩
  · have ha : ∀ id, a ≠ .register id := fun id h => ha ⟨id, h⟩
    exact .inr ⟨ha, e.enrolling_next F ha⟩

end Enrolling

/-! ## What has happened to an instance -/

/-- The engine began to load the instance. -/
def ByEngine (h : List Section) (id : Nat) : Prop :=
  ∃ s ∈ h, ∃ l, s.instr = .recoverSize id l ∧ l.registers = true

/-- The instance was entered into the registry. -/
def Enrolled (h : List Section) (id : Nat) : Prop := ∃ s ∈ h, s.instr = .register id

/-- The section enters another instance over this one. -/
def Section.Displaces (s : Section) (id : Nat) : Prop :=
  ∃ k i, s.instr = .register k ∧ k ≠ id ∧ s.machine.get? k = some i ∧
    s.machine.registered? i.item = some id

/-- Another load of the item entered its instance over this one, which nobody had taken out. -/
def Displaced (h : List Section) (id : Nat) : Prop := ∃ s ∈ h, s.Displaces id

/-- The instance was started when it was no longer registered. -/
def Revived (h : List Section) (id : Nat) : Prop :=
  ∃ before s after, h = before ++ s :: after ∧ s.instr = .start id ∧ Enrolled before id ∧
    ¬ s.machine.core.Lists id

section History

variable {h : List Section} {s : Section} {id : Nat}

theorem byEngine_snoc : ByEngine (h ++ [s]) id ↔
    ByEngine h id ∨ ∃ l, s.instr = .recoverSize id l ∧ l.registers = true := by
  simp only [ByEngine, List.mem_append, List.mem_singleton, or_and_right, exists_or,
    exists_eq_left]

theorem enrolled_snoc : Enrolled (h ++ [s]) id ↔ Enrolled h id ∨ s.instr = .register id := by
  simp only [Enrolled, List.mem_append, List.mem_singleton, or_and_right, exists_or,
    exists_eq_left]

theorem displaced_snoc : Displaced (h ++ [s]) id ↔ Displaced h id ∨ s.Displaces id := by
  simp only [Displaced, List.mem_append, List.mem_singleton, or_and_right, exists_or,
    exists_eq_left]

theorem revived_snoc : Revived (h ++ [s]) id ↔ Revived h id ∨
    s.instr = .start id ∧ Enrolled h id ∧ ¬ s.machine.core.Lists id := by
  constructor
  · rintro ⟨before, s', after, he, hs⟩
    rcases List.eq_nil_or_concat after with rfl | ⟨l, x, rfl⟩
    · obtain ⟨rfl, hs'⟩ := List.append_inj' he rfl
      cases hs'
      exact .inr hs
    · have he : h ++ [s] = (before ++ s' :: l) ++ [x] := by simpa using he
      exact .inl ⟨before, s', l, (List.append_inj' he rfl).1, hs⟩
  · rintro (⟨before, s', after, rfl, hs⟩ | hs)
    · exact ⟨before, s', after ++ [s], by simp, hs⟩
    · exact ⟨h, s, [], rfl, hs⟩

end History

/-! ## Where every instance stands -/

/-- Instances that the engine loads are entered once. Those that have been and are running are
registered, or displaced, or started too late, or somebody has taken them out and is about to stop
them. -/
structure System.Accounted (h : List Section) (S : System) : Prop where
  listed : S.machine.core.Listed
  enrolled : ∀ id, S.machine.core.Lists id → Enrolled h id
  once : (enrolling S.pending).Nodup
  settled : ∀ id, Enrolled h id →
    id < S.machine.core.slots.length ∧ id ∉ enrolling S.pending
  loads : ∀ id, ByEngine h id → id ∈ enrolling S.pending ∨ Enrolled h id
  gone : ∀ id, Displaced h id ∨ Revived h id → Enrolled h id ∧ ¬ S.machine.core.Lists id
  shown : ∀ id, Enrolled h id → S.machine.core.Runs id →
    S.machine.core.Lists id ∨ Displaced h id ∨ Revived h id ∨ ∃ ms, .stop id ms ∈ S.pending

namespace System

section Move

variable {h : List Section} {S T : System} {a b : Instr} {rest : List Instr} {reply : Reply}
  {others : List Thread} {id : Nat}

/-- The registry holds what it held, or what has just been entered. -/
theorem Moves.lists_after (M : Moves S a rest reply others T)
    (h : T.machine.core.Lists id) : S.machine.core.Lists id ∨ a = .register id := by
  obtain ⟨item, hin⟩ := Core.lists_iff.mp h
  rcases M.effect.registry with e | ⟨o, k, n, ms, -, -, e, -⟩ | ⟨n, i, ha, -, e⟩
  · exact .inl (Core.lists_iff.mpr ⟨item, e ▸ hin⟩)
  · rw [e, Core.mem_unregister] at hin
    exact .inl (Core.lists_iff.mpr ⟨item, hin.1⟩)
  · rw [e, Core.mem_enter] at hin
    rcases hin with hin | hin
    · cases hin; exact .inr ha
    · exact .inl (Core.lists_iff.mpr ⟨item, hin.1⟩)

/-- An instance that leaves the registry is about to be stopped, or is displaced. -/
theorem Moves.lists_before (M : Moves S a rest reply others T) (L : S.machine.core.Listed)
    (h : S.machine.core.Lists id) (ha : a ≠ .register id) :
    T.machine.core.Lists id ∨ (∃ ms, .stop id ms ∈ T.pending) ∨
      Section.Displaces ⟨S.machine, a⟩ id := by
  obtain ⟨item, hin⟩ := Core.lists_iff.mp h
  rw [Core.lists_iff]
  rcases M.effect.registry with e | ⟨o, k, n, ms, -, hk, e, hstop⟩ | ⟨n, i, rfl, hi, e⟩
  · exact .inl ⟨item, e.symm ▸ hin⟩
  · by_cases he : item = k
    · have := (L.lookup_iff.mpr (he ▸ hin)).symm.trans hk
      obtain rfl : id = n := Option.some.inj this
      exact .inr (.inl ⟨ms, M.mem_after.mpr (.inl hstop)⟩)
    · exact .inl ⟨item, e.symm ▸ Core.mem_unregister.mpr ⟨hin, he⟩⟩
  · by_cases he : item = i.item
    · subst he
      rw [Machine.identities_getElem?, Option.map_eq_some_iff] at hi
      obtain ⟨j, hj, rfl⟩ := hi
      exact .inr (.inr ⟨n, j, rfl, fun hn => ha (hn ▸ rfl), hj, L.lookup_iff.mpr hin⟩)
    · exact .inl ⟨item, e.symm ▸ Core.mem_enter.mpr (.inr ⟨hin, he⟩)⟩

/-- An instance that is displaced leaves the registry. -/
theorem Moves.not_lists_of_displaces (M : Moves S a rest reply others T) (C : S.Coherent)
    (L : S.machine.core.Listed) (h : Section.Displaces ⟨S.machine, a⟩ id) :
    S.machine.core.Lists id ∧ ¬ T.machine.core.Lists id := by
  obtain ⟨k, i, ha, hk, hi, hreg⟩ := h
  obtain rfl : a = .register k := ha
  have hin : (i.item, id) ∈ S.machine.core.registered := L.lookup_iff.mp hreg
  refine ⟨Core.lists_iff.mpr ⟨_, hin⟩, fun hl => ?_⟩
  obtain ⟨item, hin'⟩ := Core.lists_iff.mp hl
  obtain ⟨-, j, hj, e⟩ := M.effect.of_register (M.fits C)
  obtain rfl : i.identity = j := by simpa [Machine.identities_getElem?, hi] using hj
  rw [e, Core.mem_enter] at hin'
  rcases hin' with hin' | ⟨hin', hne⟩
  · cases hin'; exact hk rfl
  · exact hne (L.item_unique hin' hin)

/-- What will be entered would have been before, or is new. -/
theorem Moves.enrolling_after (M : Moves S a rest reply others T) (C : S.Coherent)
    (A : Accounted h S) (hid : id ∈ enrolling T.pending) :
    id ∈ enrolling S.pending ∧ a ≠ .register id ∨ id = S.machine.core.slots.length := by
  rcases M.held_after.mp hid with hid | hid
  · rw [← enrolling] at hid
    rcases M.effect.enrolling_cases (M.fits C) with ⟨k, -, e⟩ | ⟨ha, e | ⟨-, e⟩⟩
    · rw [e] at hid
      cases hid
    · rw [e] at hid
      exact .inl ⟨M.held_before.mpr (.inl (by simpa [enrolling] using hid)), ha id⟩
    · rw [e] at hid
      exact .inr (List.mem_singleton.mp hid)
  · refine .inl ⟨M.held_before.mpr (.inr hid), ?_⟩
    rintro rfl
    exact M.held_once A.once rfl hid

/-- What would be entered still will, unless it has just been. -/
theorem Moves.enrolling_before (M : Moves S a rest reply others T) (C : S.Coherent)
    (hid : id ∈ enrolling S.pending) : id ∈ enrolling T.pending ∨ a = .register id := by
  rcases M.held_before.mp hid with hid | hid
  · rcases M.effect.enrolling_cases (M.fits C) with ⟨k, rfl, -⟩ | ⟨-, e | ⟨⟨l, rfl⟩, -⟩⟩
    · cases hid
      exact .inr rfl
    · refine .inl (M.held_after.mpr (.inl ?_))
      rw [← enrolling, e]
      simpa [enrolling] using hid
    · cases hid
  · exact .inl (M.held_after.mpr (.inr hid))

theorem Moves.enrolling_nodup (M : Moves S a rest reply others T) (C : S.Coherent)
    (A : Accounted h S) : (enrolling T.pending).Nodup := by
  refine M.held_nodup A.once ?_
  rw [← enrolling]
  rcases M.effect.enrolling_cases (M.fits C) with ⟨k, -, e⟩ | ⟨-, e | ⟨-, e⟩⟩
  · exact .inl (by rw [e]; rfl)
  · exact .inr (.inl e)
  · rw [e]
    refine .inr (.inr ⟨by simp, fun k hk hid => ?_⟩)
    obtain rfl := List.mem_singleton.mp hk
    obtain ⟨b, hb, he⟩ := mem_enrolling.mp hid
    obtain ⟨later, -, F⟩ := M.fits_elsewhere C hb
    exact Nat.lt_irrefl _ (F.enrols_lt he)

/-- What is no longer registered never is again. -/
theorem Accounted.not_lists (A : Accounted h S) (M : Moves S a rest reply others T)
    (he : Enrolled h id) (hno : ¬ S.machine.core.Lists id) : ¬ T.machine.core.Lists id := by
  intro hl
  rcases M.lists_after hl with hl | rfl
  · exact hno hl
  · exact (A.settled id he).2 (M.held_before.mpr (.inl rfl))

theorem Accounted.gone_after (A : Accounted h S) (M : Moves S a rest reply others T)
    (C : S.Coherent)
    (hg : Displaced (h ++ [⟨S.machine, a⟩]) id ∨ Revived (h ++ [⟨S.machine, a⟩]) id) :
    Enrolled h id ∧ ¬ T.machine.core.Lists id := by
  have old : Displaced h id ∨ Revived h id → Enrolled h id ∧ ¬ T.machine.core.Lists id :=
    fun hg => ⟨(A.gone id hg).1, A.not_lists M (A.gone id hg).1 (A.gone id hg).2⟩
  rw [displaced_snoc, revived_snoc] at hg
  rcases hg with (hg | hg) | (hg | ⟨-, he, hno⟩)
  · exact old (.inl hg)
  · obtain ⟨hl, hno⟩ := M.not_lists_of_displaces C A.listed hg
    exact ⟨A.enrolled id hl, hno⟩
  · exact old (.inr hg)
  · exact ⟨he, A.not_lists M he hno⟩

/-- An instance that runs and was entered earlier. -/
theorem Accounted.shown_after (A : Accounted h S) (M : Moves S a rest reply others T)
    (C : S.Coherent) (he : Enrolled h id) (hr : T.machine.core.Runs id) :
    T.machine.core.Lists id ∨ Displaced (h ++ [⟨S.machine, a⟩]) id ∨
      Revived (h ++ [⟨S.machine, a⟩]) id ∨ ∃ ms, .stop id ms ∈ T.pending := by
  rw [displaced_snoc, revived_snoc]
  have ha : a ≠ .register id := by
    rintro rfl
    exact (A.settled id he).2 (M.held_before.mpr (.inl rfl))
  by_cases hl : S.machine.core.Lists id
  · rcases M.lists_before A.listed hl ha with hl | hs | hd
    · exact .inl hl
    · exact .inr (.inr (.inr hs))
    · exact .inr (.inl (.inr hd))
  · by_cases hstart : a = .start id
    · exact .inr (.inr (.inl (.inr ⟨hstart, he, hl⟩)))
    · have before := M.effect.runs (M.fits C) hstart (A.settled id he).1 hr
      rcases A.shown id he before with h | hd | hv | ⟨ms, hs⟩
      · exact absurd h hl
      · exact .inr (.inl (.inl hd))
      · exact .inr (.inr (.inl (.inl hv)))
      · rcases M.mem_before.mp hs with rfl | hs
        · exact absurd hr M.effect.not_runs_of_stop
        · exact .inr (.inr (.inr ⟨ms, M.mem_after.mpr (.inr hs)⟩))

theorem Accounted.move (A : Accounted h S) (M : Moves S a rest reply others T)
    (C : S.Coherent) : Accounted (h ++ [⟨S.machine, a⟩]) T where
  listed := M.effect.listed A.listed
  enrolled id hl := by
    rw [enrolled_snoc]
    exact (M.lists_after hl).imp_left (A.enrolled id)
  once := M.enrolling_nodup C A
  settled id he := by
    have hlt : id < S.machine.core.slots.length := by
      rcases enrolled_snoc.mp he with he | rfl
      · exact (A.settled id he).1
      · exact M.fits C
    refine ⟨Nat.lt_of_lt_of_le hlt (M.grows C).slots, fun hid => ?_⟩
    rcases M.enrolling_after C A hid with ⟨hid, ha⟩ | rfl
    · rcases enrolled_snoc.mp he with he | he
      · exact (A.settled id he).2 hid
      · exact ha he
    · exact Nat.lt_irrefl _ hlt
  loads id hb := by
    rw [enrolled_snoc]
    rcases byEngine_snoc.mp hb with hb | ⟨l, rfl, hl⟩
    · rcases A.loads id hb with hid | he
      · exact (M.enrolling_before C hid).imp_right .inr
      · exact .inr (.inl he)
    · have hid : id ∈ enrolling S.pending :=
        M.held_before.mpr (.inl (by simp [Instr.enrols?, hl]))
      exact (M.enrolling_before C hid).imp_right .inr
  gone id hg := by
    obtain ⟨he, hno⟩ := A.gone_after M C hg
    exact ⟨enrolled_snoc.mpr (.inl he), hno⟩
  shown id he hr := by
    rcases enrolled_snoc.mp he with he | rfl
    · exact A.shown_after M C he hr
    · obtain ⟨-, i, -, e⟩ := M.effect.of_register (M.fits C)
      exact .inl (Core.lists_iff.mpr ⟨_, e ▸ Core.mem_enter.mpr (.inl rfl)⟩)

end Move

section Life

variable {h : List Section} {S T : System}

theorem Accounted.start {m : Machine} (hm : m.Fresh) : Accounted [] ⟨m, []⟩ where
  listed := by
    refine ⟨?_, fun p hp => ?_⟩
    · simp [Machine.core, hm.registered]
    · simp [Machine.core, hm.registered] at hp
  enrolled id hl := by simp [Core.Lists, Machine.core, hm.registered] at hl
  once := List.nodup_nil
  settled id he := by simp [Enrolled] at he
  loads id hb := by simp [ByEngine] at hb
  gone id hg := by simp [Displaced, Revived] at hg
  shown id he := by simp [Enrolled] at he

/-- Steps that are no sections change nothing for the registry. -/
theorem Accounted.still (A : Accounted h S)
    (hr : T.machine.core.registered = S.machine.core.registered)
    (hi : T.machine.core.identities = S.machine.core.identities)
    (hs : T.machine.core.slots = S.machine.core.slots)
    (he : enrolling T.pending = enrolling S.pending)
    (hp : ∀ a ∈ S.pending, a ∈ T.pending) : Accounted (h ++ []) T := by
  have lists : ∀ id, T.machine.core.Lists id ↔ S.machine.core.Lists id := fun id => by
    rw [Core.Lists, Core.Lists, hr]
  rw [List.append_nil]
  exact {
    listed := ⟨hr ▸ A.listed.items, hr ▸ hi ▸ A.listed.own⟩
    enrolled := fun id hl => A.enrolled id ((lists id).mp hl)
    once := he ▸ A.once
    settled := fun id h => he ▸ hs ▸ A.settled id h
    loads := fun id h => he ▸ A.loads id h
    gone := fun id hg => (A.gone id hg).imp_right fun hno hl => hno ((lists id).mp hl)
    shown := fun id h hrun => by
      rw [Core.Runs, hs] at hrun
      rw [lists]
      rcases A.shown id h hrun with hl | hd | hv | ⟨ms, hst⟩
      · exact .inl hl
      · exact .inr (.inl hd)
      · exact .inr (.inr (.inl hv))
      · exact .inr (.inr (.inr ⟨ms, hp _ hst⟩)) }

theorem Accounted.step {l : List Section} (A : Accounted h S) (C : S.Coherent)
    (s : S.Step l T) : Accounted (h ++ l) T := by
  revert A C
  refine s.cases_on (P := fun S l T => Accounted h S → S.Coherent → Accounted (h ++ l) T)
    ?_ ?_ ?_ ?_
  · intro m ts o A _
    have e : pending ⟨m, ts ++ [.ofOp o]⟩ = pending ⟨m, ts⟩ ++ [.op o] := pending_append m m ts _
    refine A.still rfl rfl rfl ?_ fun a ha => ?_
    · rw [e, enrolling_append]; exact List.append_nil _
    · rw [e]; exact List.mem_append_left _ ha
  · intro m ts n j _ _ A _
    have e : pending ⟨m.setPhase n .running, ts ++ [.ofJob j.owner j.ticket n]⟩ =
        pending ⟨m, ts⟩ ++ [.takeTurn j.owner j.ticket n, .jobDone n] := pending_append _ m ts _
    refine A.still rfl rfl rfl ?_ fun a ha => ?_
    · rw [e, enrolling_append]; exact List.append_nil _
    · rw [e]; exact List.mem_append_left _ ha
  · intro m ts b _ A _
    exact A.still rfl rfl rfl rfl fun a ha => ha
  · intro S T a rest reply others M A C
    exact A.move M C

theorem Life.accounted (H : Life h S) : Accounted h S :=
  H.induct (P := fun h S => Accounted h S) (fun _ hm => .start hm)
    fun _ _ _ _ H A s => A.step H.coherent s

end Life

/-- An instance that was loaded by the engine and is live, nobody being at a load or a stop of it,
is the one that is registered for its item, unless another load of the item has entered its own
instance over it, or it was started when it was no longer registered. Waits must not claim that a
job has come to its end which has not. -/
theorem registered_iff_of_live {h : List Section} {S : System} {id : Nat} {i : Instance}
    (H : Life h S) (honest : ∀ s ∈ h, s.honest = true) (hi : S.machine.get? id = some i)
    (loaded : ByEngine h id) (live : i.slot.running = true ∨ i.slot.current ≠ none)
    (returned : ∀ a ∈ S.pending, a.manages? ≠ some id) :
    S.machine.registered? i.item = some id ↔ ¬ Displaced h id ∧ ¬ Revived h id := by
  have A := H.accounted
  have hs := Machine.slot_of_get? hi
  have enrolled : Enrolled h id := by
    refine (A.loads id loaded).resolve_left fun hid => ?_
    obtain ⟨a, ha, he⟩ := mem_enrolling.mp hid
    exact returned a ha (Instr.manages?_of_enrols he)
  have runs : S.machine.core.Runs id := by
    refine ⟨_, hs, ?_⟩
    cases hr : i.slot.running with
    | true => rfl
    | false =>
      obtain ⟨turn, hc⟩ := Option.ne_none_iff_exists'.mp (live.resolve_left (by simp [hr]))
      obtain ⟨a, ha, hstop⟩ := H.draining honest id turn ⟨_, hs, hr, hc⟩
      exact absurd (Instr.manages?_of_stops hstop) (returned a ha)
  have lookup : S.machine.registered? i.item = some id ↔ S.machine.core.Lists id := by
    refine A.listed.lookup_iff.trans ⟨fun hin => Core.lists_iff.mpr ⟨_, hin⟩, fun hl => ?_⟩
    obtain ⟨item, hin⟩ := Core.lists_iff.mp hl
    obtain ⟨j, hj, e⟩ := A.listed.own _ hin
    obtain rfl : i.identity = j := by simpa [Machine.identities_getElem?, hi] using hj
    obtain rfl : i.item = item := e
    exact hin
  rw [lookup]
  constructor
  · intro hl
    exact ⟨fun hd => (A.gone id (.inl hd)).2 hl, fun hv => (A.gone id (.inr hv)).2 hl⟩
  · rintro ⟨hd, hv⟩
    rcases A.shown id enrolled runs with hl | h | h | ⟨ms, hst⟩
    · exact hl
    · exact absurd h hd
    · exact absurd h hv
    · exact absurd rfl (returned _ hst)

/-- A host whose pool gives no job back, with an item that was loaded again while a load of it
waited for the turn of the instance that it replaces. -/
def overtaken : List Section × System :=
  System.visits 80 ⟨.bare true, []⟩
    [.loadIdle "a" 1, .onWait [.loadIdle "b" 1] none, .loadIdle "c" 1]

theorem registered_iff_of_live_overtaken :
    ∃ i, overtaken.2.machine.get? 1 = some i ∧ i.slot.running = true ∧
      overtaken.2.pending.length = 0 ∧ overtaken.2.machine.registered? i.item = some 2 ∧
      (overtaken.2.machine.registered? i.item = some 1 ↔
        ¬ Displaced overtaken.1 1 ∧ ¬ Revived overtaken.1 1) := by
  have idle : overtaken.2.pending.length = 0 := by decide
  have honest : overtaken.1.all (·.honest) = true := by decide
  have loaded : ByEngine overtaken.1 1 :=
    ⟨overtaken.1.get ⟨16, by decide⟩, List.get_mem _ _, _, rfl, rfl⟩
  refine ⟨_, rfl, rfl, idle, rfl, registered_iff_of_live (Life.visits true 80 _)
    (List.all_eq_true.mp honest) rfl loaded (.inl rfl) ?_⟩
  rw [List.eq_nil_of_length_eq_zero idle]
  simp

end System

end ScriptHost
