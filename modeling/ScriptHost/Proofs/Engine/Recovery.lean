import ScriptHost.Proofs.Engine.Saving
import ScriptHost.Proofs.Store.Document

/-!
# What a load makes of a saved document

A save writes whatever the instance holds, and a load reads back less: a float
that is infinite or not a number is written as something that is no float, and
lists may be nested deeper than the reader goes. With such a value in its
variables, in a queued event or in what an event detected, an instance that was
saved starts afresh (`restored_iff`).
-/

namespace ScriptHost

/-- A document bears the time that the clock showed when the queue was read. -/
theorem Saving.Gathered.savedAt {id : Nat} {d : Document} {l : List Section}
    (G : Saving.Gathered id (.write d) l) : ∃ s ∈ l, d.savedAt = s.machine.clock := by
  cases G with
  | queue => exact ⟨_, List.mem_append_right _ (List.mem_singleton_self _), rfl⟩

namespace System

variable {h : List Section} {S : System}

theorem Life.savedAt (H : Life h S) (clock : ∀ s ∈ h, s.machine.clock.Valid) {w : Machine}
    {id : Nat} {d : Document} (hw : ⟨w, .save id (.write d)⟩ ∈ h) : d.savedAt.Valid := by
  obtain ⟨l, hl, G⟩ := H.gathered_of_mem hw
  obtain ⟨s, hs, e⟩ := G.savedAt
  exact e ▸ clock s (hl.subset (List.mem_append_left _ hs))

/-- A save has written a document, and the store took it. On any host that finds the store as it
was then, and on which reading does not fail, a load of the item goes on to read the document if
that is below its limit; and it takes the restored path if all floats of the document are finite
and its brackets are nested no deeper than the reader admits, and starts afresh if not. -/
theorem restored_iff {w N : Machine} {id k : Nat} {i j : Instance} {d : Document} {l : Loading}
    (H : Life h S) (clock : ∀ s ∈ h, s.machine.clock.Valid)
    (hw : ⟨w, .save id (.write d)⟩ ∈ h) (hi : w.get? id = some i)
    (keeps : w.Keeps i.item d.encode)
    (still : N.store = ((Instr.save id (.write d)).exec w .nothing).machine.store)
    (sized : N.has .failSize = false) (read : N.has .failRead = false)
    (hj : N.get? k = some j) (item : j.item = i.item)
    (below : d.encode.length < j.limits.maxStateBytes) (reply : Reply) :
    (Instr.recoverSize k l).exec N reply = ⟨N, [.recoverRead k l], reply⟩ ∧
    (d.isFinite = true ∧ d.levels ≤ Json.maxLevels →
      (Instr.recoverRead k l).exec N reply =
        ⟨N.count (.recovery "restored"),
          Instr.restore k l.request d ++ Instr.finishLoad k l, reply⟩) ∧
    (¬ (d.isFinite = true ∧ d.levels ≤ Json.maxLevels) →
      (Instr.recoverRead k l).exec N reply =
        ⟨(N.count (.recovery "malformed")).log .error "unable to load script state",
          Instr.freshStart k l.request ++ Instr.finishLoad k l, reply⟩) := by
  have has : N.store.Has j.item d.encode := by
    rw [still, Machine.store_exec_write hi, item]
    exact Machine.has_write keeps
  have size : N.size j.item = .ok (some d.encode.length) := by
    simp only [Machine.size, sized, has.size, Bool.false_eq_true, if_false]
  have raw : N.read j.item = .ok d.encode := by
    simp only [Machine.read, read, has.read, Bool.false_eq_true, if_false]
  obtain ⟨back, refused⟩ := Document.decode_encode (H.savedAt clock hw)
  refine ⟨?_, fun fit => ?_, fun unfit => ?_⟩
  · simp only [Instr.exec, Instr.leads, hj, Machine.recoverSize, size]
    rw [if_neg (by omega)]
  · simp only [Instr.exec, Instr.leads, hj, Machine.recoverRead, raw, back fit]
  · obtain ⟨e, he⟩ := refused unfit
    simp only [Instr.exec, Instr.leads, hj, Machine.recoverRead, raw, he, Machine.startFresh]

/-- A machine whose clock stands at the beginning of a year. -/
def bareAtNewYear : Machine := { Machine.bare false with clock := ⟨⟨2000, 1, 1⟩, 0, 0, 0⟩ }

/-- A host that has saved an instance with a variable that is not a number. -/
def unreadable : List Section × System :=
  System.visits 40 ⟨bareAtNewYear, []⟩
    [.loadIdle "a" 1, .setVars "a" (Vars.empty.insert "x" (.float ⟨0x7ff8000000000000⟩)),
      .save "a"]

theorem unreadable_life : Life unreadable.1 unreadable.2 :=
  ⟨bareAtNewYear, ⟨rfl, rfl, rfl, rfl, fun h => by cases h⟩, Run.visits 40 _ _⟩

/-- The same host, where another instance of the item has been made whose limit leaves room for
the document. -/
def reloading (d : Document) : Machine :=
  let m := unreadable.2.machine
  { m with instances := m.instances ++
      [{ (default : Instance) with
        identity := { (default : Identity) with item := .ofNat 1 }
        limits := ⟨64, d.encode.length + 1, 1024⟩ }] }

theorem restored_iff_unreadable : ∃ w d i, ⟨w, .save 0 (.write d)⟩ ∈ unreadable.1 ∧
    w.get? 0 = some i ∧ w.Keeps i.item d.encode ∧
    (reloading d).store = ((Instr.save 0 (.write d)).exec w .nothing).machine.store ∧
    ∀ l reply, (Instr.recoverRead 1 l).exec (reloading d) reply =
      ⟨((reloading d).count (.recovery "malformed")).log .error "unable to load script state",
        Instr.freshStart 1 l.request ++ Instr.finishLoad 1 l, reply⟩ := by
  obtain ⟨w, d, i, hw, hi, item, keeps, still, infinite⟩ : ∃ w d i,
      ⟨w, .save 0 (.write d)⟩ = unreadable.1.get ⟨18, by decide⟩ ∧ w.get? 0 = some i ∧
        i.item = .ofNat 1 ∧ w.Keeps i.item d.encode ∧
        (reloading d).store = ((Instr.save 0 (.write d)).exec w .nothing).machine.store ∧
        d.isFinite = false :=
    ⟨_, _, _, rfl, rfl, rfl, ⟨by decide, by decide, _, rfl⟩, rfl, by decide⟩
  have clock : unreadable.1.all (fun s => decide s.machine.clock.Valid) = true := by decide
  have member : ⟨w, .save 0 (.write d)⟩ ∈ unreadable.1 := hw ▸ List.get_mem _ _
  obtain ⟨j, hj, same, below⟩ : ∃ j, (reloading d).get? 1 = some j ∧ j.item = .ofNat 1 ∧
      d.encode.length < j.limits.maxStateBytes := ⟨_, rfl, rfl, Nat.lt_succ_self _⟩
  refine ⟨w, d, i, member, hi, keeps, still, fun l reply => ?_⟩
  exact (restored_iff unreadable_life
    (fun s hs => of_decide_eq_true (List.all_eq_true.mp clock s hs)) member hi keeps still rfl
    rfl hj (same.trans item.symm) below reply).2.2 (by simp [infinite])

end System

end ScriptHost
