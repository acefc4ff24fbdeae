import ScriptHost.Proofs.Engine.Replacing
import ScriptHost.Proofs.Engine.Variables

/-!
# What the world sends an instance

The world sends an instance the events of the mask it was told last. The mask
is told when an instance is loaded and whenever its named state has been
replaced: at once or, if somebody has the script, when it is settled next. A
turn that has the script for its handler settles it in the end. Whoever has it
to edit it or to tell a mask does not, nor does a turn that has settled it and
is to let it go: a mask that is kept back then stays untold until another turn
comes (`mask_of_state_told`).
-/

namespace ScriptHost

namespace Instr

/-- Sections that tell the mask of the instance's named state, or lead to one that does. -/
def tells (id : Nat) : Instr → Bool
  | .publishMask k | .recoverSize k _ | .recoverRead k _ => k == id
  | _ => false

theorem tells_iff {a : Instr} {id : Nat} : a.tells id = true ↔
    a = .publishMask id ∨ ∃ l, a = .recoverSize id l ∨ a = .recoverRead id l := by
  cases a <;> simp [tells]

theorem publishMask_mem_finishLoad {id : Nat} {l : Loading} :
    .publishMask id ∈ finishLoad id l := List.mem_cons_self

end Instr

namespace Machine

variable {m : Machine} {id : Nat} {i : Instance} {l : Loading}

/-- However the state of an instance is recovered, its mask is told in the end. -/
theorem tells_recover {a : Instr} (r : Reply) (hi : m.get? id = some i)
    (ha : a = .recoverSize id l ∨ a = .recoverRead id l) :
    ∃ b ∈ (a.exec m r).next, b.tells id = true := by
  have published : (Instr.publishMask id).tells id = true := by simp [Instr.tells]
  have fresh : ∀ {path : String}, ∃ b ∈ (m.startFresh id l path).2, b.tells id = true :=
    ⟨_, List.mem_append_right _ Instr.publishMask_mem_finishLoad, published⟩
  rcases ha with rfl | rfl
  · simp only [Instr.exec, Instr.leads, hi]
    unfold recoverSize
    split
    · exact fresh
    · split
      · exact fresh
      · exact ⟨_, List.mem_singleton_self _, by simp [Instr.tells]⟩
    · exact fresh
  · simp only [Instr.exec, Instr.leads, hi]
    unfold recoverRead
    split
    · exact fresh
    · split
      · exact fresh
      · exact ⟨_, List.mem_append_right _ Instr.publishMask_mem_finishLoad, published⟩

/-- An instance that was not there before is to recover its state. -/
theorem recovers_new {a : Instr} (r : Reply) (hn : m.get? id = none)
    (hi : (a.exec m r).machine.get? id = some i) :
    ∃ l, .recoverSize id l ∈ (a.exec m r).next := by
  obtain ⟨l, caps, rfl, -⟩ := get?_new r hn hi
  refine ⟨l, ?_⟩
  simp only [Instr.exec, load] at hi ⊢
  split at hi
  · cases hn.symm.trans hi
  · have new : id < m.instances.length + 1 := by simpa using (List.getElem?_eq_some_iff.mp hi).1
    have old : m.instances.length ≤ id := List.getElem?_eq_none_iff.mp hn
    rw [show id = m.instances.length by omega]
    exact List.mem_singleton_self _

end Machine

/-! ## Masks kept back -/

/-- The section would tell the mask, but finds that somebody has the script. -/
def Section.defers (id : Nat) (s : Section) : Bool :=
  match s.instr with
  | .publishMask k => k == id && (s.machine.get? id).any (·.held)
  | _ => false

theorem Section.defers_iff {m : Machine} {a : Instr} {id : Nat} :
    Section.defers id ⟨m, a⟩ = true ↔
      a = .publishMask id ∧ ∃ i, m.get? id = some i ∧ i.held = true := by
  cases a with
  | publishMask k =>
    simp only [defers, Bool.and_eq_true, beq_iff_eq, Instr.publishMask.injEq, Option.any_eq_true]
  | _ => simp [defers]

/-- A mask that is kept back is not told. -/
theorem Section.mask?_of_defers {id : Nat} {s : Section} (h : s.defers id = true) :
    s.mask? id = none := by
  obtain ⟨m, a⟩ := s
  obtain ⟨rfl, i, hi, held⟩ := defers_iff.mp h
  rw [mask?_publishMask hi, if_pos held]

/-- A mask was kept back in the course of some sections, and none was told since. -/
def KeptBack (id : Nat) (h before : List Section) (s : Section) (after : List Section) : Prop :=
  h = before ++ s :: after ∧ s.defers id = true ∧ ∀ t ∈ after, t.mask? id = none

namespace KeptBack

variable {id : Nat} {h before after : List Section} {s : Section}

/-- A mask has just been kept back. -/
theorem now (h : List Section) (hs : s.defers id = true) : KeptBack id (h ++ [s]) h s [] :=
  ⟨rfl, hs, fun _ ht => (List.not_mem_nil ht).elim⟩

/-- It is kept back still when nothing is told. -/
theorem snoc (K : KeptBack id h before s after) {t : Section} (ht : t.mask? id = none) :
    KeptBack id (h ++ [t]) before s (after ++ [t]) := by
  obtain ⟨rfl, hs, none⟩ := K
  exact ⟨by simp, hs, List.forall_mem_append.mpr ⟨none, List.forall_mem_singleton.mpr ht⟩⟩

/-- The mask told last is the one told before. -/
theorem last (K : KeptBack id h before s after) :
    (h.filterMap (Section.mask? id)).getLast? = (before.filterMap (Section.mask? id)).getLast? := by
  obtain ⟨rfl, hs, none⟩ := K
  have later : after.filterMap (Section.mask? id) = [] := List.filterMap_eq_nil_iff.mpr none
  rw [List.filterMap_append, List.filterMap_cons_none (Section.mask?_of_defers hs), later,
    List.append_nil]

end KeptBack

/-! ## Turns that have settled a script -/

theorem Section.free_of_hold {id : Nat} {b : Hold} {m : Machine} {a : Instr} (ha : a ≠ .settle id)
    (h : Section.hold id b ⟨m, a⟩ = .free) : b = .free := by
  by_cases hm : a.marks id = true
  · rcases Instr.marks_iff.mp hm with ⟨v, hv, rfl⟩ | ⟨e, rfl⟩ | rfl
    · cases (if_pos hv).symm.trans h
    · have edited : b.edit = .free := (if_pos rfl).symm.trans h
      cases b <;> first | rfl | cases edited
    · exact absurd rfl ha
  · exact (Section.unmarked (Bool.eq_false_iff.mpr hm)).1.symm.trans h

/-- A turn has the script until it has settled it. -/
theorem free_of_holdAfter {id : Nat} {b : Hold} {h : List Section}
    (unsettled : ∀ s ∈ h, s.instr ≠ .settle id) (free : holdAfter id b h = .free) : b = .free := by
  induction h generalizing b with
  | nil => exact free
  | cons s h ih =>
    rw [List.forall_mem_cons] at unsettled
    exact Section.free_of_hold unsettled.1 (ih unsettled.2 free)

namespace System

variable {S T : System} {a : Instr} {rest : List Instr} {reply : Reply} {others : List Thread}
  {h before after : List Section} {s : Section} {id : Nat} {i : Instance}

/-- A mask that is kept back waits for the script to be settled, which it has not been since. -/
theorem Life.kept_back (H : Life h S) (K : KeptBack id h before s after)
    (hi : S.machine.get? id = some i) :
    i.maskStale = true ∧ ∀ t ∈ after, t.instr ≠ .settle id := by
  obtain ⟨m, a⟩ := s
  obtain ⟨rfl, hs, none⟩ := K
  obtain ⟨rfl, j, hj, held⟩ := Section.defers_iff.mp hs
  obtain ⟨m₀, fresh, r₀⟩ := H
  obtain ⟨U, V, rest, reply, others, -, rfl, M, rV, r⟩ := r₀.split
  have HV : Life _ V := ⟨m₀, fresh, rV⟩
  obtain ⟨s, p, hj'⟩ := M.get?_after hj
  have stale : (Instr.alter id j (.publishMask id)).maskStale = true := by
    rw [show Instr.alter id j (.publishMask id) = j.publish from if_pos rfl,
      Instance.publish_of_held held]
  suffices waits : (∃ i, S.machine.get? id = some i ∧ i.maskStale = true) ∧
      ∀ t ∈ after, t.instr ≠ .settle id by
    obtain ⟨⟨k, hk, stale⟩, unsettled⟩ := waits
    obtain rfl := Option.some.inj (hi.symm.trans hk)
    exact ⟨stale, unsettled⟩
  refine r.lasts (P := fun g S => (∃ i, S.machine.get? id = some i ∧ i.maskStale = true) ∧
    ∀ t ∈ g, t.instr ≠ .settle id) HV
    ⟨⟨_, hj', stale⟩, fun _ ht => (List.not_mem_nil ht).elim⟩ ?_ ?_
  · rintro g U V J ⟨⟨i, hi, stale⟩, unsettled⟩
    exact ⟨⟨i, (J.get? id).trans hi, stale⟩, unsettled⟩
  · rintro g U V a rest reply others - M hin ⟨⟨i, hi, stale⟩, unsettled⟩
    -- To settle the script would be to tell the mask.
    have apart : a ≠ .settle id := by
      rintro rfl
      have told := none _ hin
      rw [Section.mask?_settle hi, if_pos stale] at told
      cases told
    obtain ⟨s, p, hg⟩ := M.get?_after hi
    exact ⟨⟨_, hg, (Instr.stale_alter stale).resolve_left apart⟩,
      List.forall_mem_append.mpr ⟨unsettled, List.forall_mem_singleton.mpr apart⟩⟩

/-! ## The mask told last -/

/-- The mask of the instance's state is to be told, or has been told last, or has been kept back. -/
def MaskKnown (id : Nat) (h : List Section) (l : List Instr) (i : Instance) : Prop :=
  (∃ c ∈ l, c.tells id = true) ∨
  (h.filterMap (Section.mask? id)).getLast? = some (i.program.mask i.state) ∨
  ∃ before s after, KeptBack id h before s after

theorem Moves.mask_known (M : Moves S a rest reply others T) (H : Life h S)
    (hi : S.machine.get? id = some i) (K : MaskKnown id h S.pending i) :
    MaskKnown id (h ++ [⟨S.machine, a⟩]) T.pending (a.alter id i) := by
  by_cases hr : ∃ state, a = .replaceState id state
  · obtain ⟨state, rfl⟩ := hr
    exact .inl ⟨_, M.to_publish H, by simp [Instr.tells]⟩
  have same : (a.alter id i).program.mask (a.alter id i).state = i.program.mask i.state := by
    rw [(a.fixed_alter id i).2.2.1, a.state_alter id i fun state he => hr ⟨state, he⟩]
  rw [MaskKnown, same, List.filterMap_append]
  cases ht : Section.mask? id ⟨S.machine, a⟩ with
  | some x => exact .inr (.inl (by simp [ht, Section.mask_eq hi ht]))
  | none =>
    by_cases hp : a = .publishMask id
    · subst hp
      rw [Section.mask?_publishMask hi] at ht
      have held : i.held = true := by
        by_contra free
        rw [if_neg free] at ht
        cases ht
      exact .inr (.inr ⟨_, _, _, .now h (Section.defers_iff.mpr ⟨rfl, i, hi, held⟩)⟩)
    · rcases K with ⟨c, hc, tells⟩ | told | ⟨_, _, _, kept⟩
      · refine .inl ?_
        rcases M.mem_before.mp hc with rfl | hc
        · obtain ⟨l, he⟩ := (Instr.tells_iff.mp tells).resolve_left hp
          obtain ⟨b, hb, tells⟩ := Machine.tells_recover reply hi he
          exact ⟨b, M.mem_after.mpr (.inl hb), tells⟩
        · exact ⟨c, M.mem_after.mpr (.inr hc), tells⟩
      · exact .inr (.inl (by simpa [ht] using told))
      · exact .inr (.inr ⟨_, _, _, kept.snoc ht⟩)

theorem Life.mask_known (H : Life h S) (hi : S.machine.get? id = some i) :
    MaskKnown id h S.pending i := by
  revert i
  refine H.induct_moves (P := fun h S => ∀ {i}, S.machine.get? id = some i →
    MaskKnown id h S.pending i) ?_ ?_ ?_
  · intro m hm i hi
    simp [Machine.get?, hm.instances] at hi
  · intro h S T J ih i hi
    rcases ih ((J.get? id).symm.trans hi) with ⟨c, hc, tells⟩ | known
    · exact .inl ⟨c, J.keeps hc, tells⟩
    · exact .inr known
  · intro h S T a rest reply others H M ih i' hi'
    cases hi : S.machine.get? id with
    | none =>
      -- The instance has just been made, and is to recover its state.
      obtain ⟨l, next⟩ := Machine.recovers_new reply hi (M.machine ▸ hi')
      exact .inl ⟨_, M.mem_after.mpr (.inl next), by simp [Instr.tells]⟩
    | some i =>
      obtain ⟨s, p, hg⟩ := M.get?_after hi
      obtain rfl := Option.some.inj (hi'.symm.trans hg)
      exact M.mask_known H hi (ih hi)

/-- What the world knows of what an instance listens for in its state, whatever restores, switches,
resets and given up handlers there were, when nobody has its script and nobody is about to tell its
mask. The mask told last in its name is that of its named state, unless one was kept back since
which nothing was told: then it is the one told before, whatever has become of the state. Such a
mask still waits for the script to be settled. When it was kept back no turn was going to settle
the script any more: who had it was at an edit or a mask, or a turn that was to let it go. -/
theorem mask_of_state_told (H : Life h S) (hi : S.machine.get? id = some i)
    (unheld : i.held = false) (untold : ∀ a ∈ S.pending, a.tells id = false) :
    ((h.filterMap (Section.mask? id)).getLast? = some (i.program.mask i.state) ↔
      ∀ before s after, KeptBack id h before s after →
        (before.filterMap (Section.mask? id)).getLast? = some (i.program.mask i.state)) ∧
    ∀ before s after, KeptBack id h before s after →
      i.maskStale = true ∧ (∀ t ∈ after, t.instr ≠ .settle id) ∧
        holdAfter id .free before = .free := by
  refine ⟨⟨fun told before s after K => K.last.symm.trans told, fun known => ?_⟩, ?_⟩
  · rcases H.mask_known hi with ⟨c, hc, tells⟩ | told | ⟨before, s, after, K⟩
    · exact (Bool.false_ne_true ((untold c hc).symm.trans tells)).elim
    · exact told
    · exact K.last.trans (known before s after K)
  · intro before s after K
    obtain ⟨stale, unsettled⟩ := H.kept_back K hi
    have apart : s.instr ≠ .settle id := fun he => by
      have defers := K.2.1
      simp [Section.defers, he] at defers
    have free : holdAfter id (holdAfter id .free before) (s :: after) = .free := by
      rw [← holdAfter_append, ← K.1]
      exact H.hold_free hi (by simp [Instance.unheld_iff.mp unheld])
    exact ⟨stale, unsettled,
      free_of_holdAfter (List.forall_mem_cons.mpr ⟨apart, unsettled⟩) free⟩

/-- A host in which a turn is to switch the named state of an instance. -/
def toSwitch : List Section × System := System.play 40 ⟨.bare true, []⟩
  [.call (.loadNew "a" 1 (.answering [])), .call (.run 1), .call (.post "a" (.setState "other")),
    .claim 2]

/-- Its variables have been edited, and whoever has edited them has the script still. -/
def amidEdit : List Section × System := System.play 2 toSwitch.2 [.call (.setVars "a" .empty)]

/-- Now the turn switches the state. -/
def unheard : List Section × System := System.play 40 amidEdit.2 [.go 3, .go 4]

theorem mask_of_state_told_switched : ∃ i before s after, unheard.2.machine.get? 0 = some i ∧
    i.held = false ∧ (∀ a ∈ unheard.2.pending, a.tells 0 = false) ∧
    KeptBack 0 (toSwitch.1 ++ amidEdit.1 ++ unheard.1) before s after ∧
    (s.machine.get? 0).bind Instance.holder = some (.errand .edit) ∧
    before.filterMap (Section.mask? 0) = [7] ∧ i.program.mask i.state = 5 ∧
    ((toSwitch.1 ++ amidEdit.1 ++ unheard.1).filterMap (Section.mask? 0)).getLast? ≠
      some (i.program.mask i.state) ∧
    i.maskStale = true ∧ holdAfter 0 .free before = .free := by
  have H : Life (toSwitch.1 ++ amidEdit.1 ++ unheard.1) unheard.2 :=
    ((Life.play true 40 _).run (Run.play 2 _ _)).run (Run.play 40 _ _)
  obtain ⟨i, hi, unheld, mask⟩ : ∃ i, unheard.2.machine.get? 0 = some i ∧ i.held = false ∧
      i.program.mask i.state = 5 := ⟨_, rfl, rfl, rfl⟩
  have nothing : unheard.2.pending = [] := rfl
  obtain ⟨known, waits⟩ := mask_of_state_told H hi unheld (by simp [nothing])
  have kept : KeptBack 0 (toSwitch.1 ++ amidEdit.1 ++ unheard.1)
      (toSwitch.1 ++ amidEdit.1 ++ unheard.1.take 3) (unheard.1.get ⟨3, by decide⟩)
      (unheard.1.drop 4) := by
    refine ⟨?_, rfl, ?_⟩
    · rw [List.get_eq_getElem, List.append_assoc _ (unheard.1.take 3), ← List.drop_eq_getElem_cons,
        List.take_append_drop]
    · exact List.filterMap_eq_nil_iff.mp rfl
  obtain ⟨stale, -, free⟩ := waits _ _ _ kept
  refine ⟨i, _, _, _, hi, unheld, by simp [nothing], kept, rfl, rfl, mask, fun told => ?_, stale,
    free⟩
  have same := known.mp told _ _ _ kept
  rw [mask] at same
  cases same

end System

end ScriptHost
