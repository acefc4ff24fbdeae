import ScriptHost.Store.Basic
import Mathlib.Data.List.Infix

/-!
# What a store gives back

A write that succeeds is read back whole, whatever was stored before: from
memory, and from a tree of files, where the path of a document names a file and
the directories above it stay as they are.
-/

namespace ScriptHost

/-- What is found under a key does not depend on the entries of another. -/
theorem lookup_filter_other {κ β : Type} [BEq κ] [LawfulBEq κ] {k other : κ} (h : k ≠ other)
    (l : List (κ × β)) : (l.filter (·.1 != other)).lookup k = l.lookup k := by
  induction l with
  | nil => rfl
  | cons p l ih =>
    obtain ⟨key, x⟩ := p
    have hne : (k == other) = false := by simpa using h
    by_cases hk : key = other
    · subst hk
      simp [List.lookup_cons, hne, ih]
    · rw [List.filter_cons_of_pos (by simpa using hk), List.lookup_cons, List.lookup_cons, ih]

namespace FileTree

variable {t : FileTree} {loc : Location} {entry : FileEntry}

theorem get?_set_self (h : loc ≠ []) : (t.set loc entry).get? loc = some entry := by
  simp [get?, set, h]

theorem get?_set_other {other : Location} (h : other ≠ loc) :
    (t.set loc entry).get? other = t.get? other := by
  unfold get?
  by_cases he : other.isEmpty = true
  · rw [if_pos he, if_pos he]
  · rw [if_neg he, if_neg he]
    have hne : (other == loc) = false := by simpa using h
    simp only [set, erase, List.lookup_cons, hne]
    exact lookup_filter_other h _

/-- What lies at a location is no matter to the directories above it. -/
theorem checkParents_set {above rest : Location} :
    (t.set (above ++ rest) entry).checkParents above rest = t.checkParents above rest := by
  induction rest generalizing above with
  | nil => rfl
  | cons name rest ih =>
    unfold checkParents
    by_cases hr : rest = []
    · simp [hr]
    · have parent : above ++ [name] ≠ above ++ name :: rest := by simp [Ne.symm hr]
      rw [get?_set_other parent]
      have : (t.set (above ++ [name] ++ rest) entry).checkParents (above ++ [name]) rest =
          t.checkParents (above ++ [name]) rest := ih
      rw [List.append_assoc, List.singleton_append] at this
      rw [this]

/-- A file that has been written is found, at a path that names no directory. -/
theorem resolve_of_write {path : String} {data : Bytes} {t' : FileTree}
    (hp : path.endsWith "/" = false) (h : t.write path data = .ok t') :
    t'.resolve path = .ok (locate path, some (.file data)) := by
  unfold write resolve at h
  unfold resolve
  by_cases he : path.isEmpty = true
  · simp [he] at h
  by_cases hz : path.toList.any (·.toNat == 0) = true
  · simp [he, hz] at h
  simp only [he, hz, hp, if_false, Bool.false_eq_true] at h ⊢
  cases hc : t.checkParents [] (locate path) with
  | error e => simp [hc] at h
  | ok u =>
    have parents : (t.set ([] ++ locate path) (.file data)).checkParents [] (locate path) =
        t.checkParents [] (locate path) := checkParents_set
    rw [List.nil_append] at parents
    simp only [hc] at h
    cases hg : t.get? (locate path) with
    | none =>
      have hl : locate path ≠ [] := fun hl => by simp [hl, get?] at hg
      simp only [hg] at h
      cases h
      simp [parents, hc, get?_set_self hl]
    | some old =>
      cases old with
      | directory => simp [hg] at h
      | file before =>
        have hl : locate path ≠ [] := fun hl => by simp [hl, get?] at hg
        simp only [hg] at h
        cases h
        simp [parents, hc, get?_set_self hl]

end FileTree

namespace FileStore

variable {s : FileStore} {t t' : FileTree} {item : Uuid} {data : Bytes}

theorem not_endsWith_path (s : FileStore) (item : Uuid) :
    (s.path item).endsWith "/" = false := by
  have tail : ∀ front : String, (front ++ ".state").endsWith "/" = false := fun front => by
    rw [← String.endsWith_toSlice, String.Slice.endsWith_string_eq_false_iff]
    simp only [String.copy_toSlice, String.toList_append]
    rintro ⟨l, h⟩
    have := congrArg List.getLast? h
    simp at this
  unfold path join fileName
  split
  · rw [← String.append_assoc]; exact tail _
  · rw [← String.append_assoc]; exact tail _

theorem resolve_of_write (h : s.write t item data = .ok t') :
    t'.resolve (s.path item) = .ok (FileTree.locate (s.path item), some (.file data)) := by
  refine FileTree.resolve_of_write (not_endsWith_path s item) (t := t) ?_
  unfold write at h
  cases hw : t.write (s.path item) data with
  | error e => simp [hw, Except.mapError] at h
  | ok u => simpa [hw, Except.mapError] using h

end FileStore

namespace DocumentStore

/-- What the store has of the item is these bytes. -/
structure Has (d : DocumentStore) (item : Uuid) (data : Bytes) : Prop where
  read : d.read item = .ok data
  size : d.size item = .ok (some data.length)
  holds : d.holds item = true

theorem has_of_write {d d' : DocumentStore} {item : Uuid} {data : Bytes}
    (h : d.write item data = .ok d') : d'.Has item data := by
  cases d with
  | memory s =>
    cases h
    constructor <;>
      simp [read, size, holds, MemoryStore.read, MemoryStore.size, MemoryStore.get?,
        MemoryStore.write]
  | files s t =>
    cases hw : s.write t item data with
    | error e => simp [write, hw] at h
    | ok t' =>
      simp only [write, hw] at h
      cases h
      have := FileStore.resolve_of_write hw
      constructor <;>
        simp [read, size, holds, FileStore.read, FileStore.size, FileStore.holds, FileTree.read,
          FileTree.size, this, Except.mapError, Except.isOk, Except.toBool]

end DocumentStore

end ScriptHost
