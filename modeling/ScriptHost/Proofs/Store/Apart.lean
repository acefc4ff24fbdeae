import Mathlib.Data.String.Basic
import ScriptHost.Proofs.Model.Uuid
import ScriptHost.Proofs.Store.Basic

/-!
# Documents of different items

Documents of different items lie apart, in memory and in a directory of files:
the names of their files differ, and no part of a name leads out of the
directory (`FileStore.locate_path_ne`). So what is not there does not come to be
there by what is written for another item, nor by anything that is removed
(`DocumentStore.Lacks`).
-/

namespace ScriptHost

namespace FileTree

/-- One name of a path, the names above it being given from the last to the first. -/
def descend (names : List String) (name : String) : List String :=
  if name = "" ∨ name = "." then names
  else if name = ".." then names.tail
  else name :: names

theorem locate_eq (path : String) : locate path =
    (((path.toList.splitOnP (· == '/')).map String.ofList).foldl descend []).reverse := by
  rw [locate, String.splitToList_of_valid]
  rfl

/-- A name that is no direction. -/
structure Plain (name : String) : Prop where
  filled : name ≠ ""
  here : name ≠ "."
  up : name ≠ ".."
  single : ∀ c ∈ name.toList, (c == '/') = false

theorem Plain.splitOnP {name : String} (P : Plain name) :
    name.toList.splitOnP (· == '/') = [name.toList] :=
  List.splitOnP_eq_singleton P.single

theorem Plain.descend {name : String} (P : Plain name) (names : List String) :
    FileTree.descend names name = name :: names := by
  simp [FileTree.descend, P.filled, P.here, P.up]

theorem locate_plain {name : String} (P : Plain name) : locate name = [name] := by
  simp [locate_eq, P.splitOnP, P.descend]

/-- A name below a directory. -/
theorem locate_below {name : String} (P : Plain name) (dir : String) :
    locate (dir ++ "/" ++ name) = locate dir ++ [name] := by
  have split : (dir ++ "/" ++ name).toList.splitOnP (· == '/') =
      dir.toList.splitOnP (· == '/') ++ [name.toList] := by
    rw [String.toList_append, String.toList_append, List.append_assoc, ← P.splitOnP]
    exact List.splitOnP_append_cons _ _ rfl
  rw [locate_eq, locate_eq, split]
  simp [P.descend]

/-- A separator at the end of a path does not matter. -/
theorem locate_slash (dir : String) : locate (dir ++ "/") = locate dir := by
  have split : (dir ++ "/").toList.splitOnP (· == '/') =
      dir.toList.splitOnP (· == '/') ++ [[]] := by
    rw [String.toList_append]
    exact List.splitOnP_append_cons _ _ rfl
  rw [locate_eq, locate_eq, split]
  simp [descend]

theorem get?_erase_self {t : FileTree} {loc : Location} (h : loc ≠ []) :
    (t.erase loc).get? loc = none := by
  have : (t.erase loc).entries.lookup loc = none :=
    List.lookup_eq_none_iff.mpr fun p hp => by
      simpa using Ne.symm (by simpa [erase] using (List.mem_filter.mp hp).2)
  simp [get?, h, this]

theorem get?_erase {t : FileTree} {loc other : Location} (h : t.get? other = none) :
    (t.erase loc).get? other = none := by
  unfold get? at h ⊢
  split at h
  · cases h
  · next ho =>
    rw [if_neg ho]
    rw [List.lookup_eq_none_iff] at h ⊢
    exact fun p hp => h p (List.mem_filter.mp hp).1

/-- A file that is not there has no size. -/
theorem size_of_absent {t : FileTree} {path : String} (h : t.get? (locate path) = none) :
    ∃ e, t.size path = .error e := by
  unfold size resolve
  by_cases he : path.isEmpty = true
  · exact ⟨.notFound, by rw [if_pos he]⟩
  by_cases hz : path.toList.any (·.toNat == 0) = true
  · exact ⟨.nameWithNul, by rw [if_neg he, if_pos hz]⟩
  rw [if_neg he, if_neg hz]
  cases hc : t.checkParents [] (locate path) with
  | error e => exact ⟨e, by simp [hc]⟩
  | ok u => exact ⟨.notFound, by simp [hc, h]⟩

theorem resolve_eq_ok {t : FileTree} {path : String} {p : Location × Option FileEntry}
    (h : t.resolve path = .ok p) : p = (locate path, t.get? (locate path)) := by
  unfold resolve at h
  split at h
  · cases h
  split at h
  · cases h
  simp only at h
  split at h
  · cases h
  split at h
  · cases h
  · cases h
    rfl

theorem erase_of_remove {t t' : FileTree} {path : String} (h : t.remove path = .ok t') :
    t' = t.erase (locate path) ∧ locate path ≠ [] := by
  unfold remove at h
  split at h
  · cases h
  · next loc data hr =>
    cases h
    obtain ⟨rfl, hg⟩ := Prod.mk.inj (resolve_eq_ok hr)
    refine ⟨rfl, fun hl => ?_⟩
    simp [hl, get?] at hg
  · cases h
  · cases h

theorem set_of_write {t t' : FileTree} {path : String} {data : Bytes}
    (h : t.write path data = .ok t') : t' = t.set (locate path) (.file data) := by
  unfold write at h
  split at h
  · cases h
  · cases h
  · next loc entry _ hr =>
    cases h
    rw [(Prod.mk.inj (resolve_eq_ok hr)).1]

end FileTree

namespace FileStore

open FileTree (Plain locate)

variable {item other : Uuid}

/-- A document's name has no character of a kind that neither digits are, nor the hyphen, nor those
of the extension. -/
theorem any_fileName {p : Char → Bool} (hyphen : p '-' = false)
    (digits : ∀ d < 16, p (Text.hexDigit d) = false)
    (extension : ['.', 's', 't', 'a', 't', 'e'].any p = false) (item : Uuid) :
    (fileName item).toList.any p = false := by
  have name : (fileName item).toList = item.toChars ++ ['.', 's', 't', 'a', 't', 'e'] := by
    simp [fileName, Uuid.text]
  rw [name, List.any_append, extension, Bool.or_false]
  refine List.any_eq_false.mpr fun c hc => Bool.eq_false_iff.mp ?_
  rcases Uuid.mem_toChars hc with rfl | hc
  · exact hyphen
  · obtain ⟨d, -, rfl⟩ := List.mem_map.mp hc
    exact digits _ (Nat.mod_lt _ (by decide))

theorem plain_fileName (item : Uuid) : Plain (fileName item) := by
  have long : ∀ s : String, s.toList.length ≤ 2 → fileName item ≠ s := by
    rintro s hs rfl
    simp [fileName] at hs
  have unslashed : (fileName item).toList.any (· == '/') = false :=
    any_fileName rfl (by decide) rfl item
  exact ⟨long _ (by decide), long _ (by decide), long _ (by decide), fun c hc =>
    Bool.eq_false_iff.mpr (List.any_eq_false.mp unslashed c hc)⟩

theorem itemOfName?_fileName (item : Uuid) : itemOfName? (fileName item) = some item := by
  have name : (fileName item).toList = item.toChars ++ ['.', 's', 't', 'a', 't', 'e'] := by
    simp [fileName, Uuid.text]
  have filled : item.toChars ≠ [] := by simp [Uuid.toChars]
  have stem : stem? (fileName item) = some item.text := by
    have long : 0 < item.toChars.length := List.length_pos_of_ne_nil filled
    simp [stem?, name, Uuid.text, long]
  rw [itemOfName?, stem, Option.bind_some, Uuid.parse?_text]

theorem fileName_ne (h : other ≠ item) : fileName other ≠ fileName item := by
  intro he
  have := congrArg itemOfName? he
  rw [itemOfName?_fileName, itemOfName?_fileName] at this
  exact h (Option.some.inj this)

/-- Where the document of an item lies: its file's name, below the directory. -/
theorem locate_path (s : FileStore) (item : Uuid) :
    locate (s.path item) = locate s.dir ++ [fileName item] := by
  have P := plain_fileName item
  by_cases he : s.dir.isEmpty = true
  · have root : s.dir = "" := by simpa using he
    simp [path, join, root, FileTree.locate_plain P, FileTree.locate_eq, FileTree.descend]
  · by_cases hs : s.dir.endsWith "/" = true
    · obtain ⟨dir, hd⟩ : ∃ dir, s.dir = dir ++ "/" := by
        rw [← String.endsWith_toSlice, String.Slice.endsWith_string_iff] at hs
        obtain ⟨l, hl⟩ := hs
        refine ⟨String.ofList l, String.toList_inj.mp ?_⟩
        simpa using hl.symm
      rw [path, join, if_pos (by simp [hs]), hd, FileTree.locate_slash, FileTree.locate_below P]
    · rw [path, join, if_neg (by simp [he, hs]), FileTree.locate_below P]

/-- Documents of different items lie at different places. -/
theorem locate_path_ne (s : FileStore) (h : other ≠ item) :
    locate (s.path other) ≠ locate (s.path item) := by
  rw [locate_path, locate_path]
  exact fun he => fileName_ne h (List.singleton_inj.mp (List.append_cancel_left he))

end FileStore

namespace DocumentStore

/-- There is nothing where the document of the item would be. -/
def Lacks (d : DocumentStore) (item : Uuid) : Prop :=
  match d with
  | memory s => s.get? item = none
  | files s t => t.get? (FileTree.locate (s.path item)) = none

variable {d d' : DocumentStore} {item other : Uuid} {data : Bytes}

theorem Lacks.not_holds (h : d.Lacks item) : d.holds item = false := by
  cases d with
  | memory s =>
    have h : s.get? item = none := h
    simp [holds, h]
  | files s t =>
    obtain ⟨e, he⟩ := FileTree.size_of_absent h
    simp [holds, FileStore.holds, he, Except.isOk, Except.toBool]

theorem lacks_of_remove (h : d.remove item = .ok d') : d'.Lacks item := by
  cases d with
  | memory s =>
    cases h
    exact List.lookup_eq_none_iff.mpr fun p hp => by
      simpa using Ne.symm (by simpa using (List.mem_filter.mp hp).2)
  | files s t =>
    cases hr : t.remove (s.path item) with
    | error e => simp [remove, FileStore.remove, hr, Except.mapError] at h
    | ok t' =>
      simp only [remove, FileStore.remove, hr, Except.mapError] at h
      cases h
      obtain ⟨rfl, hl⟩ := FileTree.erase_of_remove hr
      exact FileTree.get?_erase_self hl

theorem Lacks.remove (L : d.Lacks item) (h : d.remove other = .ok d') : d'.Lacks item := by
  cases d with
  | memory s =>
    cases h
    have L := List.lookup_eq_none_iff.mp (show s.blobs.lookup item = none from L)
    exact List.lookup_eq_none_iff.mpr fun p hp => L p (List.mem_filter.mp hp).1
  | files s t =>
    cases hr : t.remove (s.path other) with
    | error e => simp [DocumentStore.remove, FileStore.remove, hr, Except.mapError] at h
    | ok t' =>
      simp only [DocumentStore.remove, FileStore.remove, hr, Except.mapError] at h
      cases h
      obtain ⟨rfl, -⟩ := FileTree.erase_of_remove hr
      exact FileTree.get?_erase L

theorem Lacks.write (L : d.Lacks item) (hne : other ≠ item)
    (h : d.write other data = .ok d') : d'.Lacks item := by
  cases d with
  | memory s =>
    cases h
    have L := List.lookup_eq_none_iff.mp (show s.blobs.lookup item = none from L)
    refine List.lookup_eq_none_iff.mpr fun p hp => ?_
    rcases List.mem_cons.mp hp with rfl | hp
    · simpa using Ne.symm hne
    · exact L p (List.mem_filter.mp hp).1
  | files s t =>
    cases hw : t.write (s.path other) data with
    | error e => simp [DocumentStore.write, FileStore.write, hw, Except.mapError] at h
    | ok t' =>
      simp only [DocumentStore.write, FileStore.write, hw, Except.mapError] at h
      cases h
      rw [FileTree.set_of_write hw]
      exact (FileTree.get?_set_other (FileStore.locate_path_ne s hne).symm).trans L

end DocumentStore

end ScriptHost
