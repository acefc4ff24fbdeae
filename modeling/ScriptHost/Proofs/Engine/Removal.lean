import ScriptHost.Proofs.Engine.Ladder
import ScriptHost.Proofs.Engine.Replacement
import ScriptHost.Proofs.Engine.Surroundings
import ScriptHost.Proofs.Store.Agree

/-!
# What is left of a removed script

A removal takes the script out of the registry, stops it and drops its document.
An operation that saves many scripts works on a list that was taken before, and
does not look again whether they are still registered: what it had to do when
the removal began it does afterwards, and the store has a document again
(`System.removed_for_good`).
-/

namespace ScriptHost

/-- What a section makes of the store does not depend on the answer set before. -/
theorem Instr.store_exec (a : Instr) (m : Machine) (r r' : Reply) :
    (a.exec m r).machine.store = (a.exec m r').machine.store := by
  cases a with
  | saveEach ids first => cases ids <;> rfl
  | shutdownEach ids first =>
    cases ids with
    | nil => rfl
    | cons id rest => simp only [exec, leads]; split <;> rfl
  | postEach ids e n => cases ids <;> rfl
  | _ =>
    simp only [exec, about, leads, plain]
    try (repeat' split)
    all_goals rfl

namespace Section

variable {s : Section} {item : Uuid}

/-- The machine that the section leaves. -/
def after (s : Section) : Machine := (s.instr.exec s.machine .nothing).machine

/-- The section puts a document of the item into the store. -/
def Puts (item : Uuid) (s : Section) : Prop :=
  s.writes? = some item ∧ ∃ data, s.machine.store.write item data = .ok s.after.store

/-- The section takes the document of the item out of the store. -/
def Drops (item : Uuid) (s : Section) : Prop :=
  s.removes? = some item ∧ s.machine.store.remove item = .ok s.after.store

/-- Some section puts a document of the item into the store, and none drops it afterwards. -/
def Leaves (item : Uuid) (l : List Section) : Prop :=
  ∃ h s t, l = h ++ s :: t ∧ s.Puts item ∧ ∀ s' ∈ t, ¬ s'.Drops item

theorem not_writes_of_removes (h : s.removes? = some item) (other : Uuid) :
    s.writes? ≠ some other := by
  obtain ⟨m, a⟩ := s
  cases a with
  | op o => cases o <;> first | cases h | exact nofun
  | removeState id => exact nofun
  | _ => cases h

/-- The store has a document after a section that puts one there, and where it had one before and
the section does not drop it. -/
theorem holds_after (s : Section) (item : Uuid) : s.after.store.holds item = true ↔
    s.Puts item ∨ s.machine.store.holds item = true ∧ ¬ s.Drops item := by
  have put : s.Puts item → s.after.store.holds item = true := fun ⟨_, data, h⟩ =>
    (DocumentStore.has_of_write h).holds
  have dropped : s.Drops item → s.after.store.holds item = false := fun ⟨_, h⟩ =>
    (DocumentStore.lacks_of_remove h).not_holds
  have framed : DocumentStore.Agrees item s.after.store s.machine.store →
      (s.after.store.holds item = true ↔
        s.Puts item ∨ s.machine.store.holds item = true ∧ ¬ s.Drops item) := by
    intro agrees
    rw [agrees.holds]
    constructor
    · refine fun h => .inr ⟨h, fun hd => ?_⟩
      rw [← agrees.holds, dropped hd] at h
      cases h
    · rintro (h | h)
      · rw [← agrees.holds]
        exact put h
      · exact h.1
  cases Machine.stores_exec s.machine .nothing s.instr with
  | same e =>
    exact framed (by rw [after, e]; exact .refl _ _)
  | @removes other hr e =>
    by_cases he : other = item
    · subst he
      have drops : s.Drops other := ⟨hr, e⟩
      rw [dropped drops]
      refine iff_of_false Bool.false_ne_true ?_
      rintro (h | h)
      · exact not_writes_of_removes hr other h.1
      · exact h.2 drops
    · exact framed (DocumentStore.agrees_of_remove he e)
  | @writes other data hw e =>
    by_cases he : other = item
    · subst he
      have puts : s.Puts other := ⟨hw, data, e⟩
      exact iff_of_true (put puts) (.inl puts)
    · exact framed (DocumentStore.agrees_of_write he e)

theorem leaves_nil : ¬ Leaves item [] := by
  rintro ⟨h, s, t, e, -⟩
  simp at e

theorem leaves_snoc {l : List Section} :
    Leaves item (l ++ [s]) ↔ s.Puts item ∨ Leaves item l ∧ ¬ s.Drops item := by
  constructor
  · rintro ⟨h, s', t, e, puts, kept⟩
    rcases List.eq_nil_or_concat t with rfl | ⟨t, x, rfl⟩
    · obtain ⟨-, hs⟩ := List.append_inj' e rfl
      exact .inl (List.singleton_inj.mp hs ▸ puts)
    · rw [List.concat_eq_append, ← List.cons_append, ← List.append_assoc] at e
      obtain ⟨e, hx⟩ := List.append_inj' e rfl
      have kept' := fun y hy => kept y (by simpa using Or.inl hy)
      exact .inr ⟨⟨h, s', t, e, puts, kept'⟩, kept s (by simp [List.singleton_inj.mp hx])⟩
  · rintro (puts | ⟨⟨h, s', t, rfl, puts, kept⟩, stays⟩)
    · exact ⟨l, s, [], rfl, puts, fun _ hx => (List.not_mem_nil hx).elim⟩
    · refine ⟨h, s', t ++ [s], by simp, puts, fun x hx => ?_⟩
      rcases List.mem_append.mp hx with hx | hx
      · exact kept x hx
      · exact List.mem_singleton.mp hx ▸ stays

end Section

/-- Where the store had no document of an item, it has one if one was put there and stayed. -/
theorem System.Run.holds {S T : System} {l : List Section} {item : Uuid} (r : Run S l T)
    (gone : S.machine.store.holds item = false) :
    T.machine.store.holds item = true ↔ Section.Leaves item l := by
  induction r with
  | refl => exact iff_of_false (by simp [gone]) Section.leaves_nil
  | snoc r s ih =>
    rcases s.joins_or_moves with ⟨rfl, J⟩ | ⟨a, rest, reply, others, rfl, M⟩
    · rw [List.append_nil, J.store]
      exact ih
    · have after : _ = (Section.after ⟨_, a⟩).store :=
        (congrArg Machine.store M.machine).trans (Instr.store_exec a _ _ _)
      rw [Section.leaves_snoc, after, Section.holds_after, ih]

/-! ## Who saves an instance -/

namespace Instr

/-- The section is one of an operation that has the instance to save. -/
def saves (id : Nat) : Instr → Bool
  | .save k _ => k == id
  | .saveEach ids _ | .shutdownEach ids _ | .saved ids _ _ => ids.contains id
  | _ => false

theorem saves_save {id k : Nat} {s : Saving} (h : (Instr.save k s).saves id = true) : k = id := by
  simpa [saves] using h

theorem saves_cons {id k : Nat} {ids : List Nat} {first : Option Error} {shutdown : Bool}
    (first' : Option Error) (h : (Instr.saved ids first shutdown).saves id = true) :
    (Instr.saveEach (k :: ids) first').saves id = true := by
  change (k :: ids).contains id = true
  rw [List.contains_cons, show ids.contains id = true from h, Bool.or_true]

theorem saves_head (id : Nat) (ids : List Nat) (first : Option Error) :
    (Instr.saveEach (id :: ids) first).saves id = true := by
  simp [saves]

theorem not_saves_of_settling {a : Instr} {id : Nat} (h : a.settling = true) :
    a.saves id = false := by
  cases a <;> first | rfl | cases h

theorem not_saves_nested {id : Nat} {ops : List Op} : ∀ b ∈ nested ops, b.saves id = false :=
  forall_nested (P := (·.saves id = false)) (fun _ => rfl) (fun _ => rfl) rfl ops

theorem not_saves_request {id k : Nat} {q : Request} : ∀ b ∈ request k q, b.saves id = false :=
  forall_request (P := (·.saves id = false)) (fun _ => rfl) rfl rfl rfl rfl rfl rfl rfl q

theorem not_saves_resetAll {id k : Nat} {running : Bool} :
    ∀ b ∈ resetAll k running, b.saves id = false := by
  cases running <;> simp [resetAll, revokeGrants, saves]

/-- An operation saves the instance that it names, or those that are registered; and one that
saves goes on to save what it had to. -/
theorem LeadsTo.saves {m : Machine} {a b : Instr} {id : Nat} (h : a.LeadsTo m b)
    (hb : b.saves id = true) : a.saves id = true ∨
      (∃ name, a = .op (.save name) ∧ m.named? name = some id) ∨
      ∃ o, a = .op o ∧ m.core.Lists id := by
  have idle : b.saves id = false → False := fun h => Bool.false_ne_true (h.symm.trans hb)
  have settled : b.settling = true → False := fun h => idle (not_saves_of_settling h)
  have listed : (m.registered.map (·.2)).contains id = true → m.core.Lists id := fun h =>
    show id ∈ m.registered.map (·.2) by simpa using h
  cases h with
  | op begins =>
    cases begins with
    | save named => exact .inr (.inl ⟨_, rfl, saves_save hb ▸ named⟩)
    | saveEach | shutdownEach => exact .inr (.inr ⟨_, rfl, listed hb⟩)
    | apiReset h => exact (idle (not_saves_request (q := .reset) b h)).elim
    | _ => cases hb
  | save | savedEach | savedShutdown => exact .inl hb
  | saveFirst | shutdownSave => exact .inl (saves_save hb ▸ saves_head _ _ none)
  | saveOthers | shutdownOthers => exact .inl (saves_cons none hb)
  | waitHook h | call h | deleteHook h | messageHook h => exact (idle (not_saves_nested b h)).elim
  | request h => exact (idle (not_saves_request b h)).elim
  | reset h => exact (idle (not_saves_resetAll b h)).elim
  | fresh h | unread h =>
    rcases List.mem_append.mp h with h | h
    · exact (settled (settling_freshStart _ _ b h)).elim
    · exact (settled (settling_finishLoad _ _ b h)).elim
  | restore h =>
    rcases List.mem_append.mp h with h | h
    · exact (settled (settling_restore _ _ _ b h)).elim
    · exact (settled (settling_finishLoad _ _ b h)).elim
  | _ => cases hb

end Instr

namespace Section

/-- The item under which a section enters an instance into the registry. -/
def enters? (s : Section) : Option Uuid :=
  match s.instr with
  | .register id => (s.machine.get? id).map (·.item)
  | _ => none

/-- The instance that a section is called to save, by the name it was loaded with. -/
def calledToSave? (s : Section) : Option Nat :=
  match s.instr with
  | .op (.save name) => s.machine.named? name
  | _ => none

end Section

namespace System

variable {S T : System} {h l : List Section} {item : Uuid} {k : Nat}

/-- An item stays out of the registry until a script is loaded under it. -/
theorem Run.unregistered (r : Run S l T)
    (gone : ∀ s ∈ l, s.enters? ≠ some item)
    (out : ∀ p ∈ S.machine.core.registered, p.1 ≠ item) :
    ∀ p ∈ T.machine.core.registered, p.1 ≠ item := by
  induction r with
  | refl => exact out
  | @snoc g l' U V r s ih =>
    have before := ih fun x hx => gone x (List.mem_append_left _ hx)
    have after := fun x hx => gone x (List.mem_append_right _ hx)
    clear ih
    revert before after
    refine s.cases_on (P := fun U l' V => (∀ p ∈ U.machine.core.registered, p.1 ≠ item) →
      (∀ x ∈ l', x.enters? ≠ some item) → ∀ p ∈ V.machine.core.registered, p.1 ≠ item) ?_ ?_ ?_ ?_
    · exact fun _ _ _ h _ => h
    · exact fun _ _ _ _ _ _ h _ => h
    · exact fun _ _ _ _ h _ => h
    · intro U V a rest reply others M before after p hp
      rcases M.effect.registry with e | ⟨o, other, k, ms, -, -, e, -⟩ | ⟨k, i, rfl, hi, e⟩
      · exact before p (e ▸ hp)
      · exact before p (Core.mem_unregister.mp (e ▸ hp)).1
      · rcases Core.mem_enter.mp (e ▸ hp) with rfl | ⟨hp, -⟩
        · rintro rfl
          refine after _ (List.mem_singleton_self _) ?_
          rw [Machine.identities_getElem?] at hi
          obtain ⟨j, hj, rfl⟩ := Option.map_eq_some_iff.mp hi
          simp only [Section.enters?, hj]
          rfl
        · exact before p hp

/-- While an item is not registered, an instance of it is saved by those only who had that to do
already, or are called to save this very instance. -/
theorem Run.saved_by (r : Run S l T) (H : Life h S) (gone : ∀ s ∈ l, s.enters? ≠ some item)
    (out : ∀ p ∈ S.machine.core.registered, p.1 ≠ item) {b : Instr} (hb : b ∈ T.pending)
    (saves : b.saves k = true) :
    (∃ b ∈ S.pending, b.saves k = true) ∨ (∃ s ∈ l, s.calledToSave? = some k) ∨
      ∃ i, T.machine.core.identities[k]? = some i ∧ i.item ≠ item := by
  induction r generalizing b with
  | refl => exact .inl ⟨b, hb, saves⟩
  | @snoc g l' U V r s ih =>
    have before := fun x hx => gone x (List.mem_append_left _ hx)
    have grown : ∀ {l' : List Section}, (∃ b ∈ S.pending, b.saves k = true) ∨
        (∃ s ∈ g, s.calledToSave? = some k) ∨
          (∃ i, U.machine.core.identities[k]? = some i ∧ i.item ≠ item) →
        (∀ {i}, U.machine.core.identities[k]? = some i →
          V.machine.core.identities[k]? = some i) →
        (∃ b ∈ S.pending, b.saves k = true) ∨ (∃ s ∈ g ++ l', s.calledToSave? = some k) ∨
          ∃ i, V.machine.core.identities[k]? = some i ∧ i.item ≠ item := by
      rintro l' (h | ⟨s, hs, h⟩ | ⟨i, hi, h⟩) keeps
      · exact .inl h
      · exact .inr (.inl ⟨s, List.mem_append_left _ hs, h⟩)
      · exact .inr (.inr ⟨i, keeps hi, h⟩)
    rcases s.joins_or_moves with ⟨rfl, J⟩ | ⟨a, rest, reply, others, rfl, M⟩
    · have later : b.begins = false := by cases b <;> first | rfl | cases saves
      exact grown (ih before ((J.mem_pending later).mp hb) saves) fun hi => J.identities ▸ hi
    · rcases M.mem_after.mp hb with hb | hb
      · rcases (M.leadsTo hb).saves saves with ha | ⟨name, rfl, named⟩ | ⟨o, rfl, lists⟩
        · exact grown (ih before (M.mem_before.mpr (.inl rfl)) ha) M.effect.identities
        · refine .inr (.inl ⟨_, List.mem_append_right _ (List.mem_singleton_self _), named⟩)
        · obtain ⟨other, hin⟩ := Core.lists_iff.mp lists
          obtain ⟨i, hi, e⟩ := (H.run r).accounted.listed.own _ hin
          refine .inr (.inr ⟨i, M.effect.identities hi, ?_⟩)
          rw [e]
          exact r.unregistered before out _ hin
      · exact grown (ih before (M.mem_before.mpr (.inr hb)) saves) M.effect.identities

/-- A removal that finds a script takes it out of the registry, and has nothing to save. -/
theorem Step.removes {U V : System} {id : Nat}
    (s : U.Step [⟨U.machine, .op (.remove item)⟩] V)
    (found : U.machine.registered? item = some id) :
    (∀ p ∈ V.machine.core.registered, p.1 ≠ item) ∧
      ∀ b ∈ V.pending, ∀ k, b.saves k = true → b ∈ U.pending := by
  rcases s.joins_or_moves with ⟨e, -⟩ | ⟨a, rest, reply, others, e, M⟩
  · cases e
  obtain ⟨-, rfl⟩ := Section.mk.inj (List.singleton_inj.mp e)
  have done : U.machine.perform (.remove item) = (U.machine.unregister item,
      [.stop id U.machine.stopTimeout, .removeState id, .removePlugins id,
        .log .info "script removed", .answer (.flag true)], .nothing) := by
    simp only [Machine.perform, Machine.target?, Machine.onEngine, Machine.removeScript, found]
  constructor
  · intro p hp
    rw [M.machine] at hp
    simp only [Instr.exec, done] at hp
    exact ((Core.mem_unregister (c := U.machine.core)).mp hp).2
  · intro b hb k saves
    rcases M.mem_after.mp hb with hb | hb
    · simp only [Instr.exec, done, List.mem_cons, List.not_mem_nil, or_false] at hb
      rcases hb with rfl | rfl | rfl | rfl | rfl <;> cases saves
    · exact M.mem_before.mpr (.inr hb)

/-- A removal has found a script registered under the item, and its document has been taken out of
the store; since the removal began, no script has been loaded again under the item. The store then
has a document of the item if and only if one was put there since and not dropped again. Whoever
puts one there either does so in the store itself, or saves an instance of the item: he had that to
do already when the removal began, or he was called to save this very instance. -/
theorem removed_for_good {g h₁ h₂ : List Section} {U V S : System} {item : Uuid} {m : Machine}
    {id : Nat} (H : Life g U) (removing : U.Step [⟨U.machine, .op (.remove item)⟩] V)
    (found : U.machine.registered? item = some id)
    (R : Run V (h₁ ++ ⟨m, .removeState id⟩ :: h₂) S) (removed : (m.remove item).2 = none)
    (gone : ∀ s ∈ h₁ ++ h₂, s.enters? ≠ some item) :
    (S.machine.store.holds item = true ↔ Section.Leaves item h₂) ∧
    ∀ s ∈ h₂, s.Puts item →
      (∃ data size, s.instr = .op (.put item data size)) ∨
      (∃ more least, s.instr = .op (.pad item more least)) ∨
      ∃ k d, s.instr = .save k (.write d) ∧
        ((∃ b ∈ U.pending, b.saves k = true) ∨ ∃ s' ∈ h₁ ++ h₂, s'.calledToSave? = some k) := by
  obtain ⟨out, kept⟩ := removing.removes found
  have HV : Life (g ++ [⟨U.machine, .op (.remove item)⟩]) V := H.run (.snoc .refl removing)
  constructor
  · -- The document has gone, and what is there later has been put there since.
    obtain ⟨U', V', rest, reply, others, R₁, rfl, M, -, R₂⟩ := R.split
    refine R₂.holds ?_
    obtain ⟨j, hj, own⟩ := H.accounted.listed.own _ (H.accounted.listed.lookup_iff.mp found)
    have same : U'.machine.core.identities[id]? = some j := by
      refine (H.run (Run.snoc .refl removing |>.trans R₁)).identity (s := ⟨U.machine, .op (.remove item)⟩) ?_ hj
      simp
    rw [Machine.identities_getElem?] at same
    obtain ⟨i, hi, rfl⟩ := Option.map_eq_some_iff.mp same
    have L := Machine.lacks_removeState reply hi (by rw [show i.item = item from own]; exact removed)
    rw [M.machine]
    exact (show i.item = item from own) ▸ L.not_holds
  · rintro s hs ⟨writes, -⟩
    obtain ⟨a, b, rfl⟩ := List.append_of_mem hs
    obtain ⟨U', V', rest, reply, others, R₁, hm, M, -, -⟩ :=
      Run.split (h := h₁ ++ ⟨m, .removeState id⟩ :: a) (s := s) (l := b) (by simpa using R)
    obtain ⟨w, instr⟩ := s
    obtain rfl : w = U'.machine := hm
    cases instr with
    | op o =>
      cases o with
      | put other data size => cases writes; exact .inl ⟨_, _, rfl⟩
      | pad other more least => cases writes; exact .inr (.inl ⟨_, _, rfl⟩)
      | _ => cases writes
    | save k saving =>
      cases saving with
      | write d =>
        refine .inr (.inr ⟨k, d, rfl, ?_⟩)
        have since : ∀ x ∈ h₁ ++ ⟨m, .removeState id⟩ :: a,
            x ∈ h₁ ++ (a ++ ⟨U'.machine, .save k (.write d)⟩ :: b) ∨
              x = ⟨m, .removeState id⟩ := by
          intro x hx
          simp only [List.mem_append, List.mem_cons] at hx ⊢
          tauto
        have stays : ∀ x ∈ h₁ ++ ⟨m, .removeState id⟩ :: a, x.enters? ≠ some item := by
          intro x hx
          rcases since x hx with hx | rfl
          · exact gone x hx
          · exact nofun
        rcases R₁.saved_by HV stays out (M.mem_before.mpr (.inl rfl)) (k := k)
          (by simp [Instr.saves]) with ⟨b', hb', saves⟩ | ⟨x, hx, called⟩ | ⟨j, hj, other⟩
        · exact .inl ⟨b', kept b' hb' k saves, saves⟩
        · rcases since x hx with hx | rfl
          · exact .inr ⟨x, hx, called⟩
          · cases called
        · -- The instance is one of the item.
          rw [Machine.identities_getElem?] at hj
          obtain ⟨i, hi, rfl⟩ := Option.map_eq_some_iff.mp hj
          have own : i.item = item := by simpa [Section.writes?, hi] using writes
          exact absurd own other
      | _ => cases writes
    | _ => cases writes

/-- A host with a script, the next wait for whose turn will remove it. -/
def doomed : List Section × System :=
  System.visits 40 ⟨.bare true, []⟩ [.loadIdle "a" 1, .onWait [.remove (.ofNat 1)] none]

/-- The host is being shut down, and the wait is about to remove the script. -/
def closing : List Section × System := System.play 5 doomed.2 [.call .shutdown]

/-- The removal has begun. -/
def removing : System := (System.play 1 closing.2 [.go 2]).2

/-- The removal and the shutdown have come to their ends. -/
def closed : List Section × System := System.play 40 removing [.go 2]

theorem removed_for_good_closed : closed.2.pending.length = 0 ∧
    closed.2.machine.registered? (.ofNat 1) = none ∧
    Section.Leaves (.ofNat 1) (closed.1.drop 2) ∧ ∃ b ∈ closing.2.pending, b.saves 0 = true := by
  obtain ⟨t, t', M, hk, head, moves, e⟩ : ∃ t t' M, closing.2.threads[2]? = some t ∧
      t.agenda.head? = some (.op (.remove (.ofNat 1))) ∧ t.step? closing.2.machine = some (M, t') ∧
      removing = ⟨M, closing.2.threads.set 2 t'⟩ := ⟨_, _, _, rfl, rfl, rfl, rfl⟩
  have begins : closing.2.Step [⟨closing.2.machine, .op (.remove (.ofNat 1))⟩] removing :=
    e ▸ .move hk head moves
  obtain ⟨m, hm, removed⟩ : ∃ m, ⟨m, .removeState 0⟩ = closed.1.get ⟨1, by decide⟩ ∧
      (m.remove (.ofNat 1)).2 = none := ⟨_, rfl, rfl⟩
  have history : closed.1 = closed.1.take 1 ++ ⟨m, .removeState 0⟩ :: closed.1.drop 2 := by
    rw [hm, List.get_eq_getElem, ← List.drop_eq_getElem_cons, List.take_append_drop]
  have ends : removing.Run closed.1 closed.2 := Run.play 40 removing [.go 2]
  have gone : (closed.1.take 1 ++ closed.1.drop 2).all (·.enters? != some (.ofNat 1)) = true := by
    decide
  obtain ⟨left, -⟩ := removed_for_good ((Life.visits true 40 _).run (Run.play 5 doomed.2 _))
    begins rfl (history ▸ ends) removed fun s hs => by simpa using List.all_eq_true.mp gone s hs
  have saver : closing.2.pending.any (·.saves 0) = true := by decide
  exact ⟨by decide, rfl, left.mp (by decide), List.any_eq_true.mp saver⟩

end System

end ScriptHost
