import ScriptHost.Proofs.Store.Agree

/-!
# A directory that mirrors a store in memory

An engine may keep its documents in memory or in a directory. As long as nobody
else writes there, the files of the directory that are named for items are the
entries of a store in memory, one for one (`FileStore.Mirrors`). So two stores
that start empty and are asked the same things answer the same, whatever the
items and the order, and the listing of the directory is that of the items
stored (`DocumentStore.stores_agree`).
-/

namespace ScriptHost

namespace DocumentStore

/-- What a store may be asked. -/
inductive Access where
  | write (item : Uuid) (data : Bytes)
  | read (item : Uuid)
  | size (item : Uuid)
  | holds (item : Uuid)
  | remove (item : Uuid)
  deriving DecidableEq, Repr

/-- What it answers, without the words of an error. -/
inductive Answer where
  | done (ok : Bool)
  | bytes (data : Option Bytes)
  | size (n : Option (Option Nat))
  | flag (held : Bool)
  deriving DecidableEq, Repr

def answer (d : DocumentStore) : Access → Answer
  | .write item data => .done (d.write item data).isOk
  | .read item => .bytes (d.read item).toOption
  | .size item => .size (d.size item).toOption
  | .holds item => .flag (d.holds item)
  | .remove item => .done (d.remove item).isOk

/-- The store afterwards: what fails changes nothing. -/
def after (d : DocumentStore) : Access → DocumentStore
  | .write item data => (d.write item data).toOption.getD d
  | .remove item => (d.remove item).toOption.getD d
  | _ => d

end DocumentStore

/-- Entries that have the key are not lost by a filter that lets them all pass. -/
theorem lookup_filter_passing {α β : Type} [BEq α] [LawfulBEq α] {p : α × β → Bool} {key : α}
    (h : ∀ x, p (key, x) = true) (l : List (α × β)) : (l.filter p).lookup key = l.lookup key := by
  induction l with
  | nil => rfl
  | cons e l ih =>
    obtain ⟨k, x⟩ := e
    by_cases hk : key = k
    · subst hk
      rw [List.filter_cons_of_pos (h x), List.lookup_cons_self, List.lookup_cons_self]
    · have apart : (key == k) = false := by simpa using hk
      rw [List.lookup_cons, apart]
      by_cases hp : p (k, x) = true
      · rw [List.filter_cons_of_pos hp, List.lookup_cons, apart]
        exact ih
      · rw [List.filter_cons_of_neg hp]
        exact ih

/-- Where keys are renamed apart, an entry is found under its new key. -/
theorem lookup_map_injective {α β γ δ : Type} [BEq α] [LawfulBEq α] [BEq γ] [LawfulBEq γ]
    {f : α → γ} {g : β → δ} (injective : Function.Injective f) (key : α) (l : List (α × β)) :
    (l.map fun e => (f e.1, g e.2)).lookup (f key) = (l.lookup key).map g := by
  induction l with
  | nil => rfl
  | cons e l ih =>
    obtain ⟨k, x⟩ := e
    have same : (f key == f k) = (key == k) := by
      rw [Bool.eq_iff_iff, beq_iff_eq, beq_iff_eq, injective.eq_iff]
    rw [List.map_cons, List.lookup_cons, List.lookup_cons, same, ih]
    cases key == k <;> rfl

namespace FileTree

variable {t : FileTree} {loc above rest : Location} {name path : String}

/-- The way to a directory is the way to what lies in it. -/
theorem checkParents_below (short : name.utf8ByteSize ≤ 255)
    (way : t.checkParents above rest = .ok ()) (there : t.get? (above ++ rest) = some .directory) :
    t.checkParents above (rest ++ [name]) = .ok () := by
  induction rest generalizing above with
  | nil =>
    simp only [List.nil_append, checkParents, if_neg (Nat.not_lt.mpr short), List.isEmpty_nil,
      if_true]
  | cons first rest ih =>
    have assoc : above ++ first :: rest = above ++ [first] ++ rest := by simp
    have more : (rest ++ [name]).isEmpty = false := by simp
    rw [assoc] at there
    unfold checkParents at way
    rw [List.cons_append, checkParents, more]
    split at way
    · cases way
    · next hs =>
      rw [if_neg hs, if_neg Bool.false_ne_true]
      by_cases hr : rest = []
      · subst hr
        rw [List.append_nil] at there
        rw [there]
        exact ih rfl (by rwa [List.append_nil])
      · rw [if_neg (by simpa using hr)] at way
        split at way
        · exact ih way there
        · cases way
        · cases way

theorem of_resolve_directory (h : t.resolve path = .ok (loc, some .directory)) :
    path.isEmpty = false ∧ path.toList.any (·.toNat == 0) = false ∧
      t.checkParents [] (locate path) = .ok () ∧ t.get? (locate path) = some .directory := by
  have there := (Prod.mk.inj (resolve_eq_ok h)).2.symm
  unfold resolve at h
  split at h
  · cases h
  · next filled =>
    split at h
    · cases h
    · next clean =>
      simp only at h
      split at h
      · cases h
      · next way => exact ⟨by simpa using filled, by simpa using clean, way, there⟩

theorem locate_state : locate "state" = ["state"] :=
  locate_plain ⟨by decide, by decide, by decide, by simp⟩

theorem resolve_state (there : t.get? ["state"] = some .directory) :
    t.resolve "state" = .ok (["state"], some .directory) := by
  have clean : "state".isEmpty = false ∧ ("state".toList.any (·.toNat == 0)) = false := by decide
  have parents : t.checkParents [] ["state"] = .ok () := rfl
  simp only [resolve, clean, locate_state, parents, there, Bool.false_eq_true, if_false]

/-- The names in a directory right below the working directory. -/
theorem list_state (there : t.get? ["state"] = some .directory) : t.list "state" =
    .ok ((t.entries.filter fun e => isChild ["state"] e.1).filterMap (·.1.getLast?)) := by
  simp only [list, resolve_state there]

/-- The entry of a file that stands for an item, by its name. -/
def itemAt? (dir loc : Location) : Option Uuid :=
  if isChild dir loc then loc.getLast?.bind FileStore.itemOfName? else none

/-- The files of a directory that stand for items. -/
def documents (t : FileTree) (dir : Location) : List (Location × FileEntry) :=
  t.entries.filter fun e => (itemAt? dir e.1).isSome

theorem itemAt?_fileName (dir : Location) (item : Uuid) :
    itemAt? dir (dir ++ [FileStore.fileName item]) = some item := by
  simp [itemAt?, isChild, FileStore.itemOfName?_fileName]

theorem documents_erase {dir : Location} :
    (t.erase loc).documents dir = (t.documents dir).filter (·.1 != loc) := by
  rw [documents, erase, documents, List.filter_filter, List.filter_filter]
  simp only [Bool.and_comm]

theorem documents_set {entry : FileEntry} {dir : Location} {item : Uuid} :
    (t.set (dir ++ [FileStore.fileName item]) entry).documents dir =
      (dir ++ [FileStore.fileName item], entry) ::
        (t.documents dir).filter (·.1 != dir ++ [FileStore.fileName item]) := by
  have kept : (itemAt? dir (dir ++ [FileStore.fileName item])).isSome = true := by
    rw [itemAt?_fileName]; rfl
  rw [← documents_erase]
  exact List.filter_cons_of_pos kept

/-- The items that the names in a directory stand for. -/
theorem items_list {dir : Location} {names : List String}
    (hr : t.resolve path = .ok (dir, some .directory)) (hl : t.list path = .ok names) :
    names.filterMap FileStore.itemOfName? = (t.documents dir).filterMap fun e => itemAt? dir e.1 := by
  simp only [list, hr] at hl
  cases hl
  rw [List.filterMap_filterMap, List.filterMap_filter, documents, List.filterMap_filter]
  congr 1
  funext e
  unfold itemAt?
  split
  · cases e.1.getLast?.bind FileStore.itemOfName? <;> rfl
  · rfl

end FileTree

namespace FileStore

open FileTree (locate)

/-- The files that stand for items are those of the documents in memory, no more and no less, and
their directory is there. -/
structure Mirrors (s : FileStore) (t : FileTree) (m : MemoryStore) : Prop where
  there : t.resolve s.dir = .ok (locate s.dir, some .directory)
  documents : t.documents (locate s.dir) =
    m.blobs.map fun e => (locate s.dir ++ [fileName e.1], .file e.2)
  once : (m.blobs.map (·.1)).Nodup

variable {s : FileStore} {t : FileTree} {m : MemoryStore} {item : Uuid} {data : Bytes}

theorem location_injective (s : FileStore) :
    Function.Injective fun item => locate s.dir ++ [fileName item] := by
  intro item other h
  refine Classical.byContradiction fun hne => fileName_ne hne ?_
  exact List.singleton_inj.mp (List.append_cancel_left h)

theorem short_fileName (item : Uuid) : (fileName item).utf8ByteSize ≤ 255 := by
  have text : item.text.utf8ByteSize = (Text.toBytes item.text).length := rfl
  have long : (Text.toBytes item.text).length = 36 := by
    simp [Uuid.toBytes_text, Text.asciiBytes, Uuid.toChars, Uuid.hexDigits]
  have extension : (".state" : String).utf8ByteSize = 6 := by decide
  rw [fileName, String.utf8ByteSize_append]
  omega

theorem toList_path (s : FileStore) (item : Uuid) : ∃ between : List Char, between ⊆ ['/'] ∧
    (s.path item).toList = s.dir.toList ++ between ++ (fileName item).toList := by
  unfold path join
  split
  · exact ⟨[], by simp, by simp⟩
  · exact ⟨['/'], by simp, by simp⟩

/-- A path to a document names something, as its directory's does. -/
theorem named_path (h : s.dir.toList.any (·.toNat == 0) = false) (item : Uuid) :
    (s.path item).isEmpty = false ∧ (s.path item).toList.any (·.toNat == 0) = false := by
  obtain ⟨between, hb, hp⟩ := toList_path s item
  constructor
  · rw [String.isEmpty_eq_false_iff, ← String.toList_inj.ne, hp]
    simp [fileName]
  · have name : (fileName item).toList.any (·.toNat == 0) = false :=
      any_fileName rfl (by decide) rfl item
    have slash : between.any (·.toNat == 0) = false :=
      List.any_eq_false.mpr fun c hc => by rw [List.mem_singleton.mp (hb hc)]; decide
    rw [hp, List.any_append, List.any_append, h, slash, name]
    rfl

/-- In a directory that is there the place of a document can be looked at. -/
theorem resolve_path (there : t.resolve s.dir = .ok (locate s.dir, some .directory)) :
    t.resolve (s.path item) =
      .ok (locate (s.path item), t.get? (locate s.dir ++ [fileName item])) := by
  obtain ⟨-, clean, way, there⟩ := FileTree.of_resolve_directory there
  obtain ⟨filled, clean⟩ := named_path clean item
  have parents : t.checkParents [] (locate (s.path item)) = .ok () := by
    rw [locate_path]
    exact FileTree.checkParents_below (short_fileName item) way there
  unfold FileTree.resolve
  simp only [filled, clean, parents, not_endsWith_path, Bool.false_eq_true, if_false]
  rw [← locate_path]
  rcases t.get? (locate (s.path item)) with - | data | - <;> rfl

theorem filter_documents (s : FileStore) (m : MemoryStore) (item : Uuid) :
    (m.blobs.map fun e => (locate s.dir ++ [fileName e.1], FileEntry.file e.2)).filter
        (·.1 != locate s.dir ++ [fileName item]) =
      (m.erase item).blobs.map fun e => (locate s.dir ++ [fileName e.1], FileEntry.file e.2) := by
  have same : ∀ e : Uuid × Bytes, (locate s.dir ++ [fileName e.1] != locate s.dir ++ [fileName item]) =
      (e.1 != item) := fun e => by
    rw [Bool.eq_iff_iff, bne_iff_ne, bne_iff_ne]
    exact (location_injective s).ne_iff
  rw [List.filter_map, MemoryStore.erase]
  simp only [Function.comp_def, same]

namespace Mirrors

/-- What is at the place of an item is what the store in memory has of it. -/
theorem get? (M : s.Mirrors t m) (item : Uuid) :
    t.get? (locate s.dir ++ [fileName item]) = (m.get? item).map .file := by
  have kept : (FileTree.itemAt? (locate s.dir) (locate s.dir ++ [fileName item])).isSome = true := by
    rw [FileTree.itemAt?_fileName]; rfl
  have found := lookup_filter_passing
    (p := fun e : Location × FileEntry => (FileTree.itemAt? (locate s.dir) e.1).isSome)
    (fun _ => kept) t.entries
  rw [FileTree.get?, if_neg (by simp), ← found]
  exact (congrArg (List.lookup _) M.documents).trans
    (lookup_map_injective (location_injective s) item m.blobs)

theorem resolve (M : s.Mirrors t m) (item : Uuid) :
    t.resolve (s.path item) = .ok (locate (s.path item), (m.get? item).map .file) := by
  rw [resolve_path M.there, M.get?]

/-- A change at the place of an item leaves the directory where it is. -/
theorem there_of_other {t' : FileTree} (M : s.Mirrors t m)
    (h : ∀ loc, loc ≠ locate s.dir ++ [fileName item] → t'.get? loc = t.get? loc) :
    t'.resolve s.dir = .ok (locate s.dir, some .directory) := by
  rw [← M.there]
  refine FileTree.resolve_congr fun loc hl => h loc ?_
  rintro rfl
  simp at hl

theorem write (M : s.Mirrors t m) (item : Uuid) (data : Bytes) :
    ∃ t', s.write t item data = .ok t' ∧ s.Mirrors t' (m.write item data) := by
  refine ⟨t.set (locate s.dir ++ [fileName item]) (.file data), ?_, ?_, ?_, ?_⟩
  · rw [← locate_path]
    unfold FileStore.write FileTree.write
    rw [M.resolve item]
    cases m.get? item <;> rfl
  · exact M.there_of_other fun loc hl => FileTree.get?_set_other hl
  · rw [FileTree.documents_set, M.documents, filter_documents]
    rfl
  · exact List.nodup_cons.mpr
      ⟨by simp [MemoryStore.erase], M.once.sublist (List.filter_sublist.map _)⟩

theorem remove (M : s.Mirrors t m) (item : Uuid) :
    ((m.get? item).isSome = true ∧ ∃ t', s.remove t item = .ok t' ∧ s.Mirrors t' (m.erase item)) ∨
    (m.get? item = none ∧ (∃ e, s.remove t item = .error e) ∧ m.erase item = m) := by
  cases hm : m.get? item with
  | some data =>
    refine .inl ⟨rfl, t.erase (locate s.dir ++ [fileName item]), ?_, ?_, ?_, ?_⟩
    · rw [← locate_path]
      unfold FileStore.remove FileTree.remove
      rw [M.resolve item, hm]
      rfl
    · exact M.there_of_other fun loc hl => FileTree.get?_erase_other hl
    · rw [FileTree.documents_erase, M.documents, filter_documents]
    · exact M.once.sublist (List.filter_sublist.map _)
  | none =>
    refine .inr ⟨rfl, ⟨ioError .notFound, ?_⟩, ?_⟩
    · unfold FileStore.remove FileTree.remove
      rw [M.resolve item, hm]
      rfl
    · have absent : ∀ e ∈ m.blobs, e.1 != item := fun e he => by
        simpa using Ne.symm (by simpa using List.lookup_eq_none_iff.mp hm e he)
      rw [MemoryStore.erase, List.filter_eq_self.mpr absent]

theorem list (M : s.Mirrors t m) : s.list t = .ok ((m.blobs.map (·.1)).mergeSort Uuid.le) := by
  unfold FileStore.list
  cases hl : t.list s.dir with
  | error e => simp [FileTree.list, M.there] at hl
  | ok names =>
    simp only [FileTree.items_list M.there hl, M.documents, List.filterMap_map, Function.comp_def,
      FileTree.itemAt?_fileName, List.filterMap_eq_map']

end Mirrors

/-- A directory in which no item is listed mirrors an empty store. -/
theorem mirrors_empty (h : s.list t = .ok []) : s.Mirrors t .empty := by
  unfold FileStore.list at h
  cases hl : t.list s.dir with
  | error e => simp [hl] at h
  | ok names =>
    have there : t.resolve s.dir = .ok (locate s.dir, some .directory) := by
      unfold FileTree.list at hl
      cases hr : t.resolve s.dir with
      | error e => simp [hr] at hl
      | ok p =>
        obtain ⟨loc, entry⟩ := p
        obtain ⟨rfl, -⟩ := Prod.mk.inj (FileTree.resolve_eq_ok hr)
        rcases entry with - | data | - <;> simp only [hr] at hl <;> first | rfl | cases hl
    have unnamed : (names.filterMap itemOfName?).mergeSort Uuid.le = [] := by simpa [hl] using h
    have unnamed := (unnamed ▸ List.mergeSort_perm _ Uuid.le).symm.eq_nil
    rw [FileTree.items_list there hl, List.filterMap_eq_nil_iff] at unnamed
    refine ⟨there, List.eq_nil_iff_forall_not_mem.mpr fun e he => ?_, List.nodup_nil⟩
    have named := (List.mem_filter.mp he).2
    rw [unnamed e he] at named
    cases named

end FileStore

theorem MemoryStore.mem_items {m : MemoryStore} {item : Uuid} :
    item ∈ m.blobs.map (·.1) ↔ (m.get? item).isSome = true := by
  rw [Option.isSome_iff_ne_none, get?, Ne, List.lookup_eq_none_iff]
  constructor
  · intro h none
    obtain ⟨e, he, rfl⟩ := List.mem_map.mp h
    simpa using none e he
  · intro h
    simp only [not_forall] at h
    obtain ⟨e, he, same⟩ := h
    have same : item = e.1 := by simpa using same
    exact same ▸ List.mem_map_of_mem he

theorem Uuid.toNat_injective : Function.Injective toNat := fun ⟨_⟩ ⟨_⟩ h =>
  congrArg mk (BitVec.eq_of_toNat_eq h)

theorem Uuid.pairwise_mergeSort (items : List Uuid) :
    (items.mergeSort le).Pairwise fun a b => le a b = true :=
  List.pairwise_mergeSort (fun a b c => by simpa [le] using Nat.le_trans)
    (fun a b => by simpa [le] using Nat.le_total _ _) items

/-- Items that are sorted, each of them once, ascend. -/
theorem Uuid.pairwise_lt_mergeSort {items : List Uuid} (once : items.Nodup) :
    (items.mergeSort le).Pairwise fun a b => a.toNat < b.toNat := by
  have distinct := (List.mergeSort_perm items le).nodup_iff.mpr once
  refine List.Pairwise.imp₂ (fun a b ordered apart => ?_) (pairwise_mergeSort items) distinct
  exact Nat.lt_of_le_of_ne (by simpa [le] using ordered) fun h => apart (toNat_injective h)

namespace DocumentStore

variable {s : FileStore} {t : FileTree} {m : MemoryStore}

/-- The store after several accesses, the earliest first. -/
def afterAll (d : DocumentStore) (as : List Access) : DocumentStore := as.foldl after d

/-- What a directory that mirrors a store in memory answers. -/
theorem answer_of_mirrors (M : s.Mirrors t m) {a : Access} (ha : ∀ item, a ≠ .remove item) :
    (files s t).answer a = (memory m).answer a := by
  cases a with
  | write item data =>
    obtain ⟨t', ht, -⟩ := M.write item data
    simp [answer, write, ht, Except.isOk, Except.toBool]
  | read item =>
    have resolved := M.resolve item
    cases hm : m.get? item <;> rw [hm] at resolved <;>
      simp [answer, read, FileStore.read, FileTree.read, MemoryStore.read, resolved, hm,
        Except.mapError, Except.toOption]
  | size item =>
    have resolved := M.resolve item
    cases hm : m.get? item <;> rw [hm] at resolved <;>
      simp [answer, size, FileStore.size, FileTree.size, MemoryStore.size, resolved, hm,
        Except.toOption]
  | holds item =>
    have resolved := M.resolve item
    cases hm : m.get? item <;> rw [hm] at resolved <;>
      simp [answer, holds, FileStore.holds, FileTree.size, resolved, hm, Except.isOk, Except.toBool]
  | remove item => exact absurd rfl (ha item)

/-- A directory that mirrors a store in memory goes on doing so, whatever both are asked. -/
theorem after_of_mirrors (M : s.Mirrors t m) (a : Access) :
    ∃ t' m', (files s t).after a = files s t' ∧ (memory m).after a = memory m' ∧
      s.Mirrors t' m' := by
  cases a with
  | write item data =>
    obtain ⟨t', ht, M'⟩ := M.write item data
    exact ⟨t', _, by simp [after, write, ht, Except.toOption], rfl, M'⟩
  | remove item =>
    rcases M.remove item with ⟨-, t', ht, M'⟩ | ⟨-, ⟨e, ht⟩, same⟩
    · exact ⟨t', _, by simp [after, remove, ht, Except.toOption], rfl, M'⟩
    · exact ⟨t, m, by simp [after, remove, ht, Except.toOption], congrArg memory same, M⟩
  | read | size | holds => exact ⟨t, m, rfl, rfl, M⟩

theorem afterAll_of_mirrors (M : s.Mirrors t m) (as : List Access) :
    ∃ t' m', (files s t).afterAll as = files s t' ∧ (memory m).afterAll as = memory m' ∧
      s.Mirrors t' m' := by
  induction as generalizing t m with
  | nil => exact ⟨t, m, rfl, rfl, M⟩
  | cons a as ih =>
    obtain ⟨t', m', ht, hm, M'⟩ := after_of_mirrors M a
    simpa only [afterAll, List.foldl_cons, ht, hm] using ih M'

/-- A store of files and a store in memory that have both been asked the same things, in any order
and for any items, and in neither of which an item was stored before. They answer every further
question alike, failures included, except that the removal of an item without a document is
reported by the files, and changes nothing in either. The listing of the directory is that of the
items stored, in ascending order and each once. -/
theorem stores_agree (empty : s.list t = .ok []) (as : List Access) :
    ∃ t' m', (files s t).afterAll as = files s t' ∧
      (memory .empty).afterAll as = memory m' ∧
      (∀ a, (∀ item, a ≠ .remove item) → (files s t').answer a = (memory m').answer a) ∧
      (∀ item, (memory m').answer (.remove item) = .done true ∧
        (files s t').answer (.remove item) = .done ((memory m').holds item) ∧
        ((memory m').holds item = false → (files s t').after (.remove item) = files s t' ∧
          (memory m').after (.remove item) = memory m')) ∧
      ∃ items, s.list t' = .ok items ∧ items.Pairwise (fun a b => a.toNat < b.toNat) ∧
        ∀ item, item ∈ items ↔ (memory m').holds item = true := by
  obtain ⟨t', m', ht, hm, M⟩ := afterAll_of_mirrors (FileStore.mirrors_empty empty) as
  refine ⟨t', m', ht, hm, fun a => answer_of_mirrors M, fun item => ⟨rfl, ?_⟩, _, M.list, ?_, ?_⟩
  · rcases M.remove item with ⟨held, u, hu, -⟩ | ⟨absent, ⟨e, he⟩, same⟩
    · simp [answer, remove, holds, hu, held, Except.isOk, Except.toBool]
    · refine ⟨by simp [answer, remove, holds, he, absent, Except.isOk, Except.toBool], fun _ => ?_⟩
      exact ⟨by simp [after, remove, he, Except.toOption], congrArg memory same⟩
  · exact Uuid.pairwise_lt_mergeSort M.once
  · intro item
    rw [List.mem_mergeSort, MemoryStore.mem_items]
    rfl

/-- Two items are written, the one of the higher number first, and one of them is removed again. -/
def worked : List Access :=
  [.write (.ofNat 2) [7], .write (.ofNat 1) [5], .write (.ofNat 2) [], .remove (.ofNat 1)]

theorem list_state_empty :
    (⟨"state"⟩ : FileStore).list ⟨[(["state"], .directory)]⟩ = .ok [] := by
  have names : (⟨[(["state"], .directory)]⟩ : FileTree).list "state" = .ok [] :=
    FileTree.list_state (by decide)
  simp only [FileStore.list, names, List.filterMap_nil, List.mergeSort_nil]

theorem stores_agree_worked : ∃ t', (files ⟨"state"⟩ ⟨[(["state"], .directory)]⟩).afterAll worked =
      files ⟨"state"⟩ t' ∧
    (files ⟨"state"⟩ t').answer (.read (.ofNat 2)) = .bytes (some []) ∧
    (files ⟨"state"⟩ t').answer (.remove (.ofNat 1)) = .done false ∧
    ∃ items, (⟨"state"⟩ : FileStore).list t' = .ok items ∧ .ofNat 2 ∈ items ∧ .ofNat 1 ∉ items := by
  obtain ⟨t', m', ht, hm, answers, removed, items, listed, -, held⟩ :=
    stores_agree list_state_empty worked
  have kept : m' = ⟨[(.ofNat 2, [])]⟩ := (DocumentStore.memory.inj hm).symm.trans (by decide)
  subst kept
  refine ⟨t', ht, ?_, ?_, items, listed, (held _).mpr rfl, fun h => ?_⟩
  · exact (answers (.read (.ofNat 2)) nofun).trans rfl
  · exact (removed (.ofNat 1)).2.1
  · exact absurd ((held _).mp h) (by decide)

end DocumentStore

end ScriptHost
