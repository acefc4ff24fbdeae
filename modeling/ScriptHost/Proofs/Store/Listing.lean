import Mathlib.Data.List.Nodup
import ScriptHost.Proofs.Store.Mirror

/-!
# What a directory lists

A listing takes the names in a directory that spell an item, however they spell
it and whatever lies there. So an item is listed once for every such name
(`FileStore.count_list`), and the listing is that of the stored documents if and
only if the directory is tidy: what spells an item is the file of its document
(`FileStore.exact_iff_tidy`).
-/

namespace ScriptHost

/-! ## One entry at a place -/

namespace FileTree

/-- No two entries lie at one place. -/
def Distinct (t : FileTree) : Prop := (t.entries.map (·.1)).Nodup

variable {t t' : FileTree} {loc above rest : Location} {entry : FileEntry} {name path : String}
  {names : List String}

namespace Distinct

theorem filter (D : t.Distinct) (p : Location × FileEntry → Bool) :
    (⟨t.entries.filter p⟩ : FileTree).Distinct :=
  D.sublist (List.filter_sublist.map _)

theorem set (D : t.Distinct) (loc : Location) (entry : FileEntry) : (t.set loc entry).Distinct := by
  refine List.nodup_cons.mpr ⟨fun h => ?_, D.filter _⟩
  obtain ⟨e, he, rfl⟩ := List.mem_map.mp h
  simp [erase] at he

theorem makeFrom (D : t.Distinct) (h : t.makeFrom above rest = .ok t') : t'.Distinct := by
  induction rest generalizing t above with
  | nil => exact Except.ok.inj h ▸ D
  | cons name rest ih =>
    unfold FileTree.makeFrom at h
    split at h
    · cases h
    · simp only at h
      split at h
      · exact ih D h
      · cases h
      · exact ih (D.set _ _) h

theorem makeDirectories (D : t.Distinct) (h : t.makeDirectories path = .ok t') : t'.Distinct := by
  unfold FileTree.makeDirectories at h
  split at h
  · cases h
  · exact D.makeFrom h

theorem place (D : t.Distinct) (path : String) (entry : FileEntry) :
    (t.place path entry).Distinct := by
  have made : ∀ loc, ((t.makeFrom [] loc).toOption.getD t).Distinct := fun loc => by
    cases h : t.makeFrom [] loc with
    | error e => exact D
    | ok t' => exact D.makeFrom h
  cases entry with
  | directory => exact made _
  | file data => exact (made _).set _ _

theorem write {data : Bytes} (D : t.Distinct) (h : t.write path data = .ok t') : t'.Distinct :=
  set_of_write h ▸ D.set _ _

theorem remove (D : t.Distinct) (h : t.remove path = .ok t') : t'.Distinct :=
  (erase_of_remove h).1 ▸ D.filter _

end Distinct

theorem mem_of_get? (hl : loc ≠ []) (h : t.get? loc = some entry) : (loc, entry) ∈ t.entries := by
  rw [get?, if_neg (by simpa using hl)] at h
  obtain ⟨before, after, split, -⟩ := List.lookup_eq_some_iff.mp h
  exact split ▸ List.mem_append_right _ List.mem_cons_self

theorem isChild_iff : isChild above loc = true ↔ ∃ name, loc = above ++ [name] := by
  rw [isChild, Bool.and_eq_true, beq_iff_eq, List.isPrefixOf_iff_prefix]
  constructor
  · rintro ⟨long, more, rfl⟩
    obtain ⟨name, rfl⟩ := List.length_eq_one_iff.mp (by simpa using long)
    exact ⟨name, rfl⟩
  · rintro ⟨name, rfl⟩
    exact ⟨by simp, List.prefix_append _ _⟩

/-- A directory that has been listed is there, and its names are those of the entries in it. -/
theorem list_eq_ok (h : t.list path = .ok names) :
    t.resolve path = .ok (locate path, some .directory) ∧
      names = (t.entries.filter fun e => isChild (locate path) e.1).filterMap (·.1.getLast?) := by
  unfold list at h
  cases hr : t.resolve path with
  | error e => simp [hr] at h
  | ok p =>
    obtain ⟨loc, found⟩ := p
    obtain ⟨rfl, -⟩ := Prod.mk.inj (resolve_eq_ok hr)
    rcases found with - | data | - <;> simp only [hr] at h <;> cases h
    exact ⟨rfl, rfl⟩

theorem mem_list (h : t.list path = .ok names) :
    name ∈ names ↔ ∃ entry, (locate path ++ [name], entry) ∈ t.entries := by
  rw [(list_eq_ok h).2, List.mem_filterMap]
  constructor
  · rintro ⟨e, he, last⟩
    obtain ⟨he, child⟩ := List.mem_filter.mp he
    obtain ⟨other, place⟩ := isChild_iff.mp child
    obtain rfl : other = name := by simpa [place] using last
    exact ⟨e.2, place ▸ he⟩
  · rintro ⟨entry, he⟩
    exact ⟨_, List.mem_filter.mpr ⟨he, isChild_iff.mpr ⟨name, rfl⟩⟩, by simp⟩

/-- Where all directories are there, none is made. -/
theorem makeFrom_of_there (way : t.checkParents above rest = .ok ())
    (there : t.get? (above ++ rest) = some .directory) : t.makeFrom above rest = .ok t := by
  induction rest generalizing above with
  | nil => rfl
  | cons name rest ih =>
    have assoc : above ++ name :: rest = above ++ [name] ++ rest := by simp
    rw [assoc] at there
    unfold checkParents at way
    unfold makeFrom
    split at way
    · cases way
    · next short =>
      rw [if_neg short]
      by_cases hr : rest = []
      · subst hr
        rw [List.append_nil] at there
        simp only [there]
        exact ih rfl (by rwa [List.append_nil])
      · rw [if_neg (by simpa using hr)] at way
        split at way
        · next here =>
          simp only [here]
          exact ih way there
        · cases way
        · cases way

/-- A directory has no two entries of one name. -/
theorem Distinct.nodup_list (D : t.Distinct) (h : t.list path = .ok names) : names.Nodup := by
  rw [(list_eq_ok h).2]
  unfold List.Nodup
  rw [List.pairwise_filterMap]
  have apart := List.pairwise_map.mp
    (D.filter fun e : Location × FileEntry => isChild (locate path) e.1)
  refine apart.imp_of_mem fun ha hb ne a last b last' => ?_
  rintro rfl
  obtain ⟨name, place⟩ := isChild_iff.mp (List.mem_filter.mp ha).2
  obtain ⟨name', place'⟩ := isChild_iff.mp (List.mem_filter.mp hb).2
  obtain rfl : name = a := by simpa [place] using last
  obtain rfl : name' = name := by simpa [place'] using last'
  exact ne (place.trans place'.symm)

end FileTree

/-- Of a list in which a property holds at most once, only one member has it. -/
theorem eq_of_countP_le_one {α : Type} {p : α → Bool} {l : List α} (h : l.countP p ≤ 1) {a b : α}
    (ha : a ∈ l) (hb : b ∈ l) (pa : p a = true) (pb : p b = true) : a = b := by
  rw [List.countP_eq_length_filter] at h
  have ha := List.mem_filter.mpr ⟨ha, pa⟩
  have hb := List.mem_filter.mpr ⟨hb, pb⟩
  match hf : l.filter p with
  | [] => simp [hf] at ha
  | [c] =>
    rw [hf, List.mem_singleton] at ha hb
    exact ha.trans hb.symm
  | _ :: _ :: _ => simp [hf] at h

namespace FileStore

open FileTree (locate)

/-- The store has a document of the item: it tells a size of it, and its bytes can be read. -/
def Stores (s : FileStore) (t : FileTree) (item : Uuid) : Prop :=
  (∃ n, s.size t item = .ok (some n)) ∧ ∃ data, s.read t item = .ok data

/-- Of the names in the directory those that spell an item are the names of documents, and files. -/
def Tidy (s : FileStore) (t : FileTree) (names : List String) : Prop :=
  ∀ name ∈ names, ∀ item, itemOfName? name = some item →
    name = fileName item ∧ ∃ data, t.get? (locate s.dir ++ [name]) = some (.file data)

variable {s : FileStore} {t : FileTree} {item : Uuid} {names : List String} {items : List Uuid}

/-- A directory that is there is opened as it is. -/
theorem open_of_there (there : t.resolve s.dir = .ok (locate s.dir, some .directory)) :
    FileStore.open t s.dir = .ok (s, t) := by
  obtain ⟨-, clean, way, there⟩ := FileTree.of_resolve_directory there
  rw [FileStore.open, FileTree.makeDirectories, clean, if_neg Bool.false_ne_true,
    FileTree.makeFrom_of_there way there]

/-- A document is stored if there is a file at its place. -/
theorem stores_iff (there : t.resolve s.dir = .ok (locate s.dir, some .directory)) :
    s.Stores t item ↔ ∃ data, t.get? (locate s.dir ++ [fileName item]) = some (.file data) := by
  unfold Stores size read FileTree.size FileTree.read
  rw [resolve_path there]
  rcases t.get? (locate s.dir ++ [fileName item]) with - | data | - <;> simp [Except.mapError]

theorem list_eq (h : t.list s.dir = .ok names) :
    s.list t = .ok ((names.filterMap itemOfName?).mergeSort Uuid.le) := by
  rw [list, h]

/-- An item is listed once for every name that spells it. -/
theorem count_list (h : t.list s.dir = .ok names) (hl : s.list t = .ok items) (item : Uuid) :
    items.count item = names.countP (itemOfName? · == some item) := by
  obtain rfl := Except.ok.inj ((list_eq h).symm.trans hl)
  rw [(List.mergeSort_perm _ _).count_eq, List.count_filterMap]

theorem mem_list_iff (h : t.list s.dir = .ok names) (hl : s.list t = .ok items) :
    item ∈ items ↔ ∃ name ∈ names, itemOfName? name = some item := by
  obtain rfl := Except.ok.inj ((list_eq h).symm.trans hl)
  rw [List.mem_mergeSort, List.mem_filterMap]

theorem sorted_list (h : t.list s.dir = .ok names) (hl : s.list t = .ok items) :
    items.Pairwise fun a b => a.toNat ≤ b.toNat := by
  obtain rfl := Except.ok.inj ((list_eq h).symm.trans hl)
  exact (Uuid.pairwise_mergeSort _).imp fun ordered => by simpa [Uuid.le] using ordered

/-- The name of a stored document is one of the names. -/
theorem Stores.name_mem (h : t.list s.dir = .ok names) (S : s.Stores t item) :
    fileName item ∈ names := by
  obtain ⟨data, there⟩ := (stores_iff (FileTree.list_eq_ok h).1).mp S
  exact (FileTree.mem_list h).mpr ⟨_, FileTree.mem_of_get? (by simp) there⟩

theorem Stores.mem_list (h : t.list s.dir = .ok names) (hl : s.list t = .ok items)
    (S : s.Stores t item) : item ∈ items :=
  (mem_list_iff h hl).mpr ⟨_, S.name_mem h, itemOfName?_fileName item⟩

/-- If an item is listed once, the name of its document is the only one that spells it. -/
theorem Stores.name_eq (h : t.list s.dir = .ok names) (hl : s.list t = .ok items)
    (S : s.Stores t item) (once : items.count item ≤ 1) {name : String} (hn : name ∈ names)
    (spells : itemOfName? name = some item) : name = fileName item := by
  rw [count_list h hl] at once
  exact eq_of_countP_le_one once hn (S.name_mem h) (by simpa using spells)
    (by simpa using itemOfName?_fileName item)

/-- An item that is spelled by the name of its document alone is listed at most once. -/
theorem count_le_one (D : t.Distinct) (h : t.list s.dir = .ok names) (hl : s.list t = .ok items)
    (only : ∀ name ∈ names, itemOfName? name = some item → name = fileName item) :
    items.count item ≤ 1 := by
  rw [count_list h hl]
  calc names.countP (itemOfName? · == some item)
    _ ≤ names.count (fileName item) :=
      List.countP_mono_left fun name hn spells => by
        simpa using only name hn (by simpa using spells)
    _ ≤ 1 := List.nodup_iff_count_le_one.mp (D.nodup_list h) _

theorem Tidy.stores (T : s.Tidy t names) (h : t.list s.dir = .ok names) {name : String}
    (hn : name ∈ names) (spells : itemOfName? name = some item) : s.Stores t item := by
  obtain ⟨rfl, file⟩ := T name hn item spells
  exact (stores_iff (FileTree.list_eq_ok h).1).mpr file

/-- A listing is that of the stored documents, each once and in ascending order, if and only if the
directory is tidy. -/
theorem exact_iff_tidy (D : t.Distinct) (h : t.list s.dir = .ok names)
    (hl : s.list t = .ok items) :
    (items.Pairwise (fun a b => a.toNat < b.toNat) ∧ ∀ item, item ∈ items ↔ s.Stores t item) ↔
      s.Tidy t names := by
  constructor
  · rintro ⟨ascending, exact⟩ name hn item spells
    have S := (exact item).mp ((mem_list_iff h hl).mpr ⟨name, hn, spells⟩)
    have once : items.Nodup := ascending.imp fun lt => by rintro rfl; exact Nat.lt_irrefl _ lt
    obtain rfl := S.name_eq h hl (List.nodup_iff_count_le_one.mp once item) hn spells
    exact ⟨rfl, (stores_iff (FileTree.list_eq_ok h).1).mp S⟩
  · intro T
    have once : items.Nodup := List.nodup_iff_count_le_one.mpr fun item =>
      count_le_one D h hl fun name hn spells => (T name hn item spells).1
    constructor
    · obtain rfl := Except.ok.inj ((list_eq h).symm.trans hl)
      exact Uuid.pairwise_lt_mergeSort ((List.mergeSort_perm _ _).nodup_iff.mp once)
    · intro item
      refine ⟨fun hi => ?_, Stores.mem_list h hl⟩
      obtain ⟨name, hn, spells⟩ := (mem_list_iff h hl).mp hi
      exact T.stores h hn spells

end FileStore

end ScriptHost
