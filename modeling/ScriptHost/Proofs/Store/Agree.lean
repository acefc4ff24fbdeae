import ScriptHost.Proofs.Store.Apart

/-!
# Stores that agree on an item

Two stores agree on an item if they have the same at the place of its document.
They then answer everything that is asked of the item alike, and go on agreeing
whatever is done to the item in both, or to other items in either: the places of
other documents lie neither at that place nor above it.
-/

namespace ScriptHost

namespace FileTree

variable {t t' : FileTree} {loc other : Location} {path : String}

theorem get?_erase_other (h : other ≠ loc) : (t.erase loc).get? other = t.get? other := by
  unfold get? erase
  rw [lookup_filter_other h]

/-- Trees with the same above a location agree on its parents. -/
theorem checkParents_congr {above rest : Location}
    (h : ∀ loc, loc.length < (above ++ rest).length → t'.get? loc = t.get? loc) :
    t'.checkParents above rest = t.checkParents above rest := by
  induction rest generalizing above with
  | nil => rfl
  | cons name rest ih =>
    unfold checkParents
    by_cases hr : rest = []
    · simp [hr]
    · have parent : t'.get? (above ++ [name]) = t.get? (above ++ [name]) := by
        have := List.length_pos_of_ne_nil hr
        exact h _ (by simp only [List.length_append, List.length_cons, List.length_nil]; omega)
      have below : t'.checkParents (above ++ [name]) rest =
          t.checkParents (above ++ [name]) rest := by
        refine ih fun loc hl => h loc ?_
        rwa [List.append_assoc, List.singleton_append] at hl
      rw [parent, below]

theorem resolve_congr
    (h : ∀ loc, loc.length < (locate path).length ∨ loc = locate path →
      t'.get? loc = t.get? loc) : t'.resolve path = t.resolve path := by
  have parents : t'.checkParents [] (locate path) = t.checkParents [] (locate path) :=
    checkParents_congr fun loc hl => h loc (.inl hl)
  unfold resolve
  simp only [parents, h _ (.inr rfl)]

/-- Where a file has been taken away nothing is left, and the way there is as before. -/
theorem resolve_of_remove (h : t.remove path = .ok t') :
    t'.resolve path = .ok (locate path, none) := by
  obtain ⟨rfl, hl⟩ := erase_of_remove h
  have parents : (t.erase (locate path)).checkParents [] (locate path) =
      t.checkParents [] (locate path) := by
    refine checkParents_congr fun loc hlt => get?_erase_other ?_
    rintro rfl
    simp at hlt
  unfold remove resolve at h
  unfold resolve
  by_cases he : path.isEmpty = true
  · simp [he] at h
  by_cases hz : path.toList.any (·.toNat == 0) = true
  · simp [he, hz] at h
  simp only [he, hz, if_false, Bool.false_eq_true, parents, get?_erase_self hl] at h ⊢
  cases hc : t.checkParents [] (locate path) with
  | error e => simp [hc] at h
  | ok u => rfl

end FileTree

namespace FileStore

variable {s : FileStore} {t t' : FileTree} {item other : Uuid} {data : Bytes}

theorem resolve_of_remove (h : s.remove t item = .ok t') :
    t'.resolve (s.path item) = .ok (FileTree.locate (s.path item), none) := by
  refine FileTree.resolve_of_remove (t := t) ?_
  unfold remove at h
  cases hr : t.remove (s.path item) with
  | error e => simp [hr, Except.mapError] at h
  | ok u => simpa [hr, Except.mapError] using h

/-- What lies elsewhere at the place of another document is no matter to a document. -/
theorem resolve_other (hne : other ≠ item)
    (h : ∀ loc, loc ≠ FileTree.locate (s.path other) → t'.get? loc = t.get? loc) :
    t'.resolve (s.path item) = t.resolve (s.path item) := by
  refine FileTree.resolve_congr fun loc hl => h loc ?_
  rintro rfl
  rcases hl with hl | hl
  · rw [locate_path, locate_path] at hl
    simp at hl
  · exact locate_path_ne s hne hl

end FileStore

namespace MemoryStore

variable {s : MemoryStore} {item other : Uuid} {data : Bytes}

theorem get?_erase_other (hne : other ≠ item) : (s.erase other).get? item = s.get? item :=
  lookup_filter_other hne.symm _

theorem get?_write_other (hne : other ≠ item) :
    (s.write other data).get? item = s.get? item := by
  have apart : (item == other) = false := by simpa using hne.symm
  rw [get?, write, List.lookup_cons, apart]
  exact get?_erase_other hne

end MemoryStore

namespace DocumentStore

/-- The two stores have the same at the place of the item. -/
def Agrees (item : Uuid) : DocumentStore → DocumentStore → Prop
  | memory s, memory s' => s.get? item = s'.get? item
  | files s t, files s' t' => s = s' ∧ t.resolve (s.path item) = t'.resolve (s.path item)
  | _, _ => False

variable {d e f d' : DocumentStore} {item other : Uuid} {data : Bytes}

namespace Agrees

theorem refl (item : Uuid) (d : DocumentStore) : Agrees item d d := by
  cases d with
  | memory s => exact rfl
  | files s t => exact ⟨rfl, rfl⟩

theorem symm (h : Agrees item d e) : Agrees item e d := by
  cases d <;> cases e <;> first | exact h.elim | skip
  · exact Eq.symm h
  · obtain ⟨rfl, h⟩ := h
    exact ⟨rfl, h.symm⟩

theorem trans (h : Agrees item d e) (h' : Agrees item e f) : Agrees item d f := by
  cases d <;> cases e <;> first | exact h.elim | skip
  · cases f with
    | memory s => exact Eq.trans h h'
    | files s t => exact h'.elim
  · cases f with
    | memory s => exact h'.elim
    | files s t =>
      obtain ⟨rfl, h⟩ := h
      obtain ⟨rfl, h'⟩ := h'
      exact ⟨rfl, h.trans h'⟩

theorem size (h : Agrees item d e) : d.size item = e.size item := by
  cases d <;> cases e <;> first | exact h.elim | skip
  · simp only [DocumentStore.size, MemoryStore.size, show MemoryStore.get? _ _ = _ from h]
  · obtain ⟨rfl, h⟩ := h
    simp only [DocumentStore.size, FileStore.size, FileTree.size, h]

theorem read (h : Agrees item d e) : d.read item = e.read item := by
  cases d <;> cases e <;> first | exact h.elim | skip
  · simp only [DocumentStore.read, MemoryStore.read, show MemoryStore.get? _ _ = _ from h]
  · obtain ⟨rfl, h⟩ := h
    simp only [DocumentStore.read, FileStore.read, FileTree.read, h]

theorem holds (h : Agrees item d e) : d.holds item = e.holds item := by
  cases d <;> cases e <;> first | exact h.elim | skip
  · simp only [DocumentStore.holds, show MemoryStore.get? _ _ = _ from h]
  · obtain ⟨rfl, h⟩ := h
    simp only [DocumentStore.holds, FileStore.holds, FileTree.size, h]

theorem isFiles (h : Agrees item d e) : d.isFiles = e.isFiles := by
  cases d <;> cases e <;> first | exact h.elim | rfl

end Agrees

/-- A document that is written stays out of the way of the others. -/
theorem agrees_of_write (hne : other ≠ item) (h : d.write other data = .ok d') :
    Agrees item d' d := by
  cases d with
  | memory s =>
    cases h
    exact MemoryStore.get?_write_other hne
  | files s t =>
    cases hw : t.write (s.path other) data with
    | error e => simp [DocumentStore.write, FileStore.write, hw, Except.mapError] at h
    | ok t' =>
      simp only [DocumentStore.write, FileStore.write, hw, Except.mapError] at h
      cases h
      rw [FileTree.set_of_write hw]
      exact ⟨rfl, FileStore.resolve_other hne fun loc hl => FileTree.get?_set_other hl⟩

/-- A document that is removed leaves the others where they are. -/
theorem agrees_of_remove (hne : other ≠ item) (h : d.remove other = .ok d') :
    Agrees item d' d := by
  cases d with
  | memory s =>
    cases h
    exact MemoryStore.get?_erase_other hne
  | files s t =>
    cases hr : t.remove (s.path other) with
    | error e => simp [DocumentStore.remove, FileStore.remove, hr, Except.mapError] at h
    | ok t' =>
      simp only [DocumentStore.remove, FileStore.remove, hr, Except.mapError] at h
      cases h
      rw [(FileTree.erase_of_remove hr).1]
      exact ⟨rfl, FileStore.resolve_other hne fun loc hl => FileTree.get?_erase_other hl⟩

/-- Two results agree on the item: both fail alike, or both succeed with stores that agree. -/
def Agree (item : Uuid) : Except Error DocumentStore → Except Error DocumentStore → Prop
  | .ok d, .ok e => Agrees item d e
  | .error a, .error b => a = b
  | _, _ => False

namespace Agrees

theorem write (h : Agrees item d e) (data : Bytes) :
    Agree item (d.write item data) (e.write item data) := by
  cases d <;> cases e <;> first | exact h.elim | skip
  · simp [DocumentStore.write, Agree, Agrees, MemoryStore.get?, MemoryStore.write]
  · next s t s' t' =>
    obtain ⟨rfl, h⟩ := h
    have alike : ∀ u u', s.write t item data = .ok u → s.write t' item data = .ok u' →
        u.resolve (s.path item) = u'.resolve (s.path item) := fun u u' hu hu' => by
      rw [FileStore.resolve_of_write hu, FileStore.resolve_of_write hu']
    unfold FileStore.write FileTree.write at alike
    simp only [DocumentStore.write]
    unfold FileStore.write FileTree.write
    rw [h] at alike ⊢
    revert alike
    rcases t'.resolve (s.path item) with e | ⟨loc, - | bytes | -⟩ <;> intro alike
    · exact rfl
    · exact ⟨rfl, alike _ _ rfl rfl⟩
    · exact ⟨rfl, alike _ _ rfl rfl⟩
    · exact rfl

theorem remove (h : Agrees item d e) : Agree item (d.remove item) (e.remove item) := by
  cases d <;> cases e <;> first | exact h.elim | skip
  · have gone : ∀ s : MemoryStore, (s.erase item).get? item = none := fun s =>
      lacks_of_remove (d := .memory s) rfl
    exact (gone _).trans (gone _).symm
  · next s t s' t' =>
    obtain ⟨rfl, h⟩ := h
    have alike : ∀ u u', s.remove t item = .ok u → s.remove t' item = .ok u' →
        u.resolve (s.path item) = u'.resolve (s.path item) := fun u u' hu hu' => by
      rw [FileStore.resolve_of_remove hu, FileStore.resolve_of_remove hu']
    unfold FileStore.remove FileTree.remove at alike
    simp only [DocumentStore.remove]
    unfold FileStore.remove FileTree.remove
    rw [h] at alike ⊢
    revert alike
    rcases t'.resolve (s.path item) with e | ⟨loc, - | bytes | -⟩ <;> intro alike
    · exact rfl
    · exact rfl
    · exact ⟨rfl, alike _ _ rfl rfl⟩
    · exact rfl

end Agrees

end DocumentStore

end ScriptHost
