import ScriptHost.Proofs.Engine.Registry
import ScriptHost.Proofs.Engine.Leading
import ScriptHost.Proofs.Store.Basic

/-!
# What a save reports

A save reads the fields of its document from the instance one after the other,
writes the document and then looks whether the store has one for the item. It
does not look whether that is the one just written, and the failure of a write
is not its answer: with an older document in the store, a save that stored
nothing reports success (`save_reported`).
-/

namespace ScriptHost

/-- The sections in which a save of the instance has read what its document is to say, up to this
point. A save at shutdown is told by the one before it whether the instance was running. -/
inductive Saving.Gathered (id : Nat) : Saving → List Section → Prop where
  | begun : Gathered id .running []
  | running {m : Machine} {i : Instance} : m.get? id = some i →
      Gathered id (.state i.slot.running) [⟨m, .save id .running⟩]
  | shutdown {m : Machine} {i : Instance} {rest : List Nat} {first : Option Error} :
      m.get? id = some i →
      Gathered id (.state i.slot.running) [⟨m, .shutdownEach (id :: rest) first⟩]
  | state {m : Machine} {i : Instance} {l : List Section} {running : Bool} :
      Gathered id (.state running) l → m.get? id = some i →
      Gathered id (.vars running i.state) (l ++ [⟨m, .save id (.state running)⟩])
  | vars {m : Machine} {i : Instance} {l : List Section} {running : Bool} {state : String} :
      Gathered id (.vars running state) l → m.get? id = some i →
      Gathered id (.plugins running state i.vars) (l ++ [⟨m, .save id (.vars running state)⟩])
  | plugins {m : Machine} {i : Instance} {l : List Section} {running : Bool} {state : String}
      {vars : Vars} : Gathered id (.plugins running state vars) l → m.get? id = some i →
      Gathered id (.queue running state vars ((m.exports.lookup i.item).getD []))
        (l ++ [⟨m, .save id (.plugins running state vars)⟩])
  | queue {m : Machine} {i : Instance} {l : List Section} {running : Bool} {state : String}
      {vars : Vars} {plugins : Bytes} : Gathered id (.queue running state vars plugins) l →
      m.get? id = some i →
      Gathered id (.write ⟨state, running, vars, plugins, i.slot.queue.events, m.clock⟩)
        (l ++ [⟨m, .save id (.queue running state vars plugins)⟩])
  | written {m : Machine} {l : List Section} {d : Document} : Gathered id (.write d) l →
      Gathered id .verify (l ++ [⟨m, .save id (.write d)⟩])

namespace Machine

/-- The store takes the bytes: it does not refuse them, and does not only pretend. -/
def Keeps (m : Machine) (item : Uuid) (data : Bytes) : Prop :=
  m.has .failWrite = false ∧ m.has .loseWrite = false ∧
    ∃ store, m.store.write item data = .ok store

variable {m : Machine} {item : Uuid} {data : Bytes}

theorem has_write (h : m.Keeps item data) : (m.write item data).1.store.Has item data := by
  obtain ⟨hf, hl, store, hs⟩ := h
  have hf' : (m.note (.write item data.length)).has .failWrite = false := hf
  have hl' : (m.note (.write item data.length)).has .loseWrite = false := hl
  have hs' : (m.note (.write item data.length)).store.write item data = .ok store := hs
  have := DocumentStore.has_of_write hs
  simp only [write, hf', hl', hs', Bool.false_eq_true, if_false]
  split <;> exact this

theorem store_write (h : ¬ m.Keeps item data) : (m.write item data).1.store = m.store := by
  unfold write
  simp only
  split
  · rfl
  · next hf =>
    split
    · rfl
    · next hl =>
      split
      · next store hs => exact absurd ⟨Bool.eq_false_iff.mpr hf, Bool.eq_false_iff.mpr hl, store, hs⟩ h
      · rfl

/-- What the section of a save that writes makes of the store. -/
theorem store_exec_write {id : Nat} {i : Instance} (hi : m.get? id = some i) (d : Document)
    (r : Reply) : ((Instr.save id (.write d)).exec m r).machine.store =
      (m.write i.item d.encode).1.store := by
  simp only [Instr.exec, hi, save]
  split <;> rfl

end Machine

theorem Saving.Gathered.next {m : Machine} {id : Nat} {i : Instance} {s t : Saving}
    {l : List Section} (G : s.Gathered id l) (hi : m.get? id = some i)
    (h : .save id t ∈ (m.save id i s).2.1) : t.Gathered id (l ++ [⟨m, .save id s⟩]) := by
  cases s with
  | verify =>
    simp only [Machine.save] at h
    split at h <;> cases h
  | _ =>
    simp only [Machine.save, List.mem_singleton, Instr.save.injEq, true_and] at h
    subst h
    first
      | (cases G; exact .running hi)
      | exact .state G hi
      | exact .vars G hi
      | exact .plugins G hi
      | exact .queue G hi
      | exact .written G

namespace System

variable {h : List Section} {S T : System}

/-- What a save that is under way knows has been read by sections that were done for it. -/
theorem Life.gathered (H : Life h S) {id : Nat} {s : Saving} (hs : .save id s ∈ S.pending) :
    ∃ l : List Section, l.Sublist h ∧ s.Gathered id l := by
  revert id s
  refine H.induct_moves (P := fun h S => ∀ {id s}, .save id s ∈ S.pending →
    ∃ l : List Section, l.Sublist h ∧ s.Gathered id l) ?_ ?_ ?_
  · intro m _ id s hs
    cases hs
  · exact fun h S T J ih id s hs => ih ((J.mem_pending rfl).mp hs)
  · intro h S T a rest reply others _ M ih id s hs
    rcases M.mem_after.mp hs with hs | hs
    · rcases Machine.next_save hs with rfl | ⟨i, hi, ⟨t, rfl, hn⟩ | ⟨ids, first, rfl, rfl⟩⟩
      · exact ⟨[], List.nil_sublist _, .begun⟩
      · obtain ⟨l, hl, G⟩ := ih (M.mem_before.mpr (.inl rfl))
        exact ⟨_, hl.append_right _, G.next hi hn⟩
      · exact ⟨_, List.sublist_append_right h _, .shutdown hi⟩
    · obtain ⟨l, hl, G⟩ := ih (M.mem_before.mpr (.inr hs))
      exact ⟨l, hl.trans (List.sublist_append_left _ _), G⟩

/-- The same of a section of a save that has been done. -/
theorem Life.gathered_of_mem (H : Life h S) {m : Machine} {id : Nat} {s : Saving}
    (hs : ⟨m, .save id s⟩ ∈ h) :
    ∃ l : List Section, (l ++ [Section.mk m (.save id s)]).Sublist h ∧ s.Gathered id l := by
  revert hs
  refine H.induct_moves (P := fun (h : List Section) _ => ⟨m, .save id s⟩ ∈ h →
    ∃ l : List Section, (l ++ [Section.mk m (.save id s)]).Sublist h ∧ s.Gathered id l) ?_ ?_ ?_
  · intro m _ hs
    cases hs
  · exact fun h S T J ih => ih
  · intro h S T a rest reply others H M ih hs
    rcases List.mem_append.mp hs with hs | hs
    · obtain ⟨l, hl, G⟩ := ih hs
      exact ⟨l, hl.trans (List.sublist_append_left _ _), G⟩
    · cases List.mem_singleton.mp hs
      obtain ⟨l, hl, G⟩ := H.gathered (M.mem_before.mpr (.inl rfl))
      exact ⟨l, hl.append_right _, G⟩

/-- An instance keeps its identity. -/
theorem Life.identity (H : Life h S) {s : Section} (hs : s ∈ h) {id : Nat} {x : Identity}
    (hx : s.machine.core.identities[id]? = some x) :
    S.machine.core.identities[id]? = some x := by
  revert hs
  refine H.induct_moves (P := fun h S => s ∈ h → S.machine.core.identities[id]? = some x)
    ?_ ?_ ?_
  · intro m _ hs
    cases hs
  · exact fun h S T J ih => J.identities.symm ▸ ih
  · intro h S T a rest reply others _ M ih hs
    refine M.effect.identities ?_
    rcases List.mem_append.mp hs with hs | hs
    · exact ih hs
    · cases List.mem_singleton.mp hs
      exact hx

/-- What a save comes to. The document says what the instance was when its sections looked; as long
as nobody else writes to the store or removes from it, the store then has that very document if it
took it, and what it had before if it did not; and the save reports success, and is counted as one,
if the store took the document or had one already. Only if it did neither the save fails. -/
theorem save_reported {w : Machine} {id : Nat} {i : Instance} {d : Document} (H : Life h S)
    (hw : ⟨w, .save id (.write d)⟩ ∈ h) (hi : w.get? id = some i) :
    (∃ l : List Section, (l ++ [Section.mk w (.save id (.write d))]).Sublist h ∧
      Saving.Gathered id (.write d) l) ∧
    (S.machine.store = ((Instr.save id (.write d)).exec w .nothing).machine.store →
      (w.Keeps i.item d.encode → S.machine.store.Has i.item d.encode) ∧
      (¬ w.Keeps i.item d.encode → S.machine.store = w.store) ∧
      (w.Keeps i.item d.encode ∨ w.store.holds i.item = true → ∀ reply,
        (Instr.save id .verify).exec S.machine reply =
          ⟨S.machine.count (.save true), [], .nothing⟩) ∧
      (¬ w.Keeps i.item d.encode → w.store.holds i.item = false → ∀ reply,
        (Instr.save id .verify).exec S.machine reply =
          ⟨(S.machine.count (.save false)).log .error "script state save failed", [],
            .failed (.stateNotPersisted i.item)⟩)) := by
  refine ⟨H.gathered_of_mem hw, fun still => ?_⟩
  rw [Machine.store_exec_write hi] at still
  have kept : w.Keeps i.item d.encode → S.machine.store.Has i.item d.encode := fun hk =>
    still ▸ Machine.has_write hk
  have lost : ¬ w.Keeps i.item d.encode → S.machine.store = w.store := fun hk =>
    still.trans (Machine.store_write hk)
  obtain ⟨j, hj, ho⟩ : ∃ j, S.machine.get? id = some j ∧ j.item = i.item := by
    have same : S.machine.core.identities[id]? = some i.identity :=
      H.identity hw (by simp [Machine.identities_getElem?, hi])
    rw [Machine.identities_getElem?] at same
    obtain ⟨j, hj, ho⟩ := Option.map_eq_some_iff.mp same
    exact ⟨j, hj, congrArg Identity.item ho⟩
  refine ⟨kept, lost, fun hs reply => ?_, fun hk hs reply => ?_⟩
  · have holds : S.machine.store.holds i.item = true := by
      by_cases hk : w.Keeps i.item d.encode
      · exact (kept hk).holds
      · exact lost hk ▸ hs.resolve_left hk
    simp [Instr.exec, hj, Machine.save, ho, holds]
  · have holds : S.machine.store.holds i.item = false := lost hk ▸ hs
    simp [Instr.exec, hj, Machine.save, ho, holds]

/-- A host whose store fails to write the second document of an item. -/
def outdated : List Section × System :=
  System.visits 40 ⟨.bare false, []⟩
    [.loadIdle "a" 1, .save "a", .switch .failWrite true, .clearQueue "a", .save "a"]

theorem save_reported_outdated : ∃ w d i, ⟨w, .save 0 (.write d)⟩ ∈ outdated.1 ∧
    w.get? 0 = some i ∧ w.has .failWrite = true ∧
    outdated.2.machine.store = ((Instr.save 0 (.write d)).exec w .nothing).machine.store ∧
    (Instr.save 0 .verify).exec outdated.2.machine .nothing =
      ⟨outdated.2.machine.count (.save true), [], .nothing⟩ := by
  obtain ⟨w, d, i, hw, hi, failing, holds, same⟩ : ∃ w d i,
      ⟨w, .save 0 (.write d)⟩ = outdated.1.get ⟨26, by decide⟩ ∧ w.get? 0 = some i ∧
        w.has .failWrite = true ∧ w.store.holds i.item = true ∧
        outdated.2.machine.store = w.store :=
    ⟨_, _, _, rfl, rfl, by decide, by decide, rfl⟩
  have member : ⟨w, .save 0 (.write d)⟩ ∈ outdated.1 := hw ▸ List.get_mem _ _
  have refused : ¬ w.Keeps i.item d.encode := fun hk =>
    Bool.false_ne_true (hk.1.symm.trans failing)
  have still : outdated.2.machine.store =
      ((Instr.save 0 (.write d)).exec w .nothing).machine.store := by
    rw [Machine.store_exec_write hi, Machine.store_write refused, same]
  exact ⟨w, d, i, member, hi, failing, still,
    ((save_reported (Life.visits false 40 _) member hi).2 still).2.2.1 (.inr holds) .nothing⟩

end System

end ScriptHost
