import Mathlib.Data.List.Forall2
import ScriptHost.Proofs.Command.Verdict

/-!
# What the operator is shown of a directory

The command that lists the stored documents shows what the directory lists, and
a word that begins an identifier is looked up there. In a tidy directory both
are right: the command succeeds, with a line for every document, and a word that
begins one stored item means it. What spells an item and is not the file of its
document is listed as well, and both go by it (`Command.listed_exactly`).
-/

namespace ScriptHost

namespace Command

open FileStore (itemOfName? fileName)

variable {c : Config} {s : FileStore} {t : FileTree} {item : Uuid} {items : List Uuid}
  {names lines : List String} {word : String}

/-! ## Lines -/

/-- The line of an item needs its document, unless what lies at its place is over the limit. -/
theorem rowOf_isOk_iff : (∃ line, rowOf c s t item = .ok line) ↔
    s.Stores t item ∨ ∃ n, s.size t item = .ok n ∧ c.maxStateBytes.toNat ≤ n.getD 0 := by
  constructor
  · rintro ⟨line, h⟩
    unfold rowOf at h
    cases hs : s.size t item with
    | error e => simp [hs, bind, Except.bind] at h
    | ok n =>
      by_cases large : c.maxStateBytes.toNat ≤ n.getD 0
      · exact .inr ⟨n, rfl, large⟩
      · cases hr : s.read t item with
        | error e => simp [hs, hr, large, bind, Except.bind] at h
        | ok data => exact .inl ⟨⟨_, (FileStore.has_of_read hr).size⟩, data, hr⟩
  · rintro (⟨-, data, hr⟩ | ⟨n, hs, large⟩)
    · exact ⟨_, rowOf_eq hr⟩
    · exact ⟨_, by simp only [rowOf, hs, bind, Except.bind, if_pos large]; rfl⟩

/-- The lines are all there if each item has one. -/
theorem rows_eq (h : List.Forall₂ (fun item line => rowOf c s t item = .ok line) items lines) :
    rows c s t items = (String.join lines, none) := by
  induction h with
  | nil => rfl
  | cons first _ ih => simp only [rows, first, ih, String.join_cons]

theorem exists_lines (h : ∀ item ∈ items, ∃ line, rowOf c s t item = .ok line) :
    ∃ lines, List.Forall₂ (fun item line => rowOf c s t item = .ok line) items lines := by
  induction items with
  | nil => exact ⟨[], .nil⟩
  | cons item items ih =>
    obtain ⟨first, others⟩ := List.forall_mem_cons.mp h
    obtain ⟨line, here⟩ := first
    obtain ⟨lines, all⟩ := ih others
    exact ⟨line :: lines, .cons here all⟩

theorem rows_complete_iff :
    (rows c s t items).2 = none ↔ ∀ item ∈ items, ∃ line, rowOf c s t item = .ok line := by
  induction items with
  | nil => simp [rows]
  | cons item items ih =>
    rw [rows, List.forall_mem_cons, ← ih]
    cases rowOf c s t item <;> simp

/-- What the command prints if it fails for no item. -/
def inventory (s : FileStore) (items : List Uuid) (lines : List String) : String :=
  if items = [] then s!"No stored script state in {s.dir}.\n"
  else headings ++ String.join lines ++ s!"\n{items.length} document(s)\n"

theorem listing_eq_inventory (hl : s.list t = .ok items)
    (h : List.Forall₂ (fun item line => rowOf c s t item = .ok line) items lines) :
    listing c s t = (inventory s items lines, none) := by
  unfold listing inventory
  rw [hl]
  cases items with
  | nil => rfl
  | cons first others => simp [rows_eq h]

theorem listing_complete_iff (hl : s.list t = .ok items) : (listing c s t).2 = none ↔
    ∀ item ∈ items, s.Stores t item ∨ ∃ n, s.size t item = .ok n ∧
      c.maxStateBytes.toNat ≤ n.getD 0 := by
  simp only [← rowOf_isOk_iff, ← rows_complete_iff]
  unfold listing
  rw [hl]
  cases items with
  | nil => simp [rows]
  | cons first others =>
    simp only
    split
    · next e h => simp [h]
    · next h => simp [h]

/-! ## Words -/

/-- A word that is too short for an identifier means the one item of the listing that it begins. -/
theorem resolve_eq_ok_iff (hl : s.list t = .ok items) (short : word.utf8ByteSize < 36) :
    resolve s t word = .ok item ↔
      (items.filter fun item => word.toList.isPrefixOf item.text.toList) = [item] := by
  unfold resolve
  rw [if_neg (Nat.not_le.mpr short), hl]
  rcases h : items.filter fun item => word.toList.isPrefixOf item.text.toList with
    - | ⟨found, - | ⟨second, more⟩⟩ <;> simp [h]

/-- Of the items that a word begins a stored one alone is listed, and it once, if and only if the
name of its document is the only one that spells such an item. -/
theorem resolve_stored_iff (D : t.Distinct) (h : t.list s.dir = .ok names)
    (hl : s.list t = .ok items) (S : s.Stores t item) (begins : word.toList <+: item.text.toList)
    (short : word.utf8ByteSize < 36) :
    resolve s t word = .ok item ↔ ∀ name ∈ names, ∀ other, itemOfName? name = some other →
      word.toList <+: other.text.toList → name = fileName item := by
  have counted : (items.filter fun item => word.toList.isPrefixOf item.text.toList).count item =
      items.count item := List.count_filter (by simpa using begins)
  rw [resolve_eq_ok_iff hl short]
  constructor
  · intro alone name hn other spells begins'
    obtain rfl : other = item := by
      have listed : other ∈ items.filter fun item => word.toList.isPrefixOf item.text.toList :=
        List.mem_filter.mpr ⟨(FileStore.mem_list_iff h hl).mpr ⟨name, hn, spells⟩,
          by simpa using begins'⟩
      rw [alone] at listed
      exact List.mem_singleton.mp listed
    rw [alone, List.count_singleton_self] at counted
    exact S.name_eq h hl counted.symm.le hn spells
  · intro only
    have same : ∀ other ∈ items.filter fun item => word.toList.isPrefixOf item.text.toList,
        other = item := by
      intro other ho
      obtain ⟨listed, begins'⟩ := List.mem_filter.mp ho
      obtain ⟨name, hn, spells⟩ := (FileStore.mem_list_iff h hl).mp listed
      rw [only name hn other spells (by simpa using begins'),
        FileStore.itemOfName?_fileName] at spells
      exact (Option.some.inj spells).symm
    have once : items.count item = 1 := by
      refine Nat.le_antisymm (FileStore.count_le_one D h hl fun name hn spells => ?_)
        (List.count_pos_iff.mpr (S.mem_list h hl))
      exact only name hn item spells begins
    rw [← List.replicate_one, List.eq_replicate_iff]
    refine ⟨?_, same⟩
    rw [← once, ← counted, List.count_eq_length.mpr fun other ho => (same other ho).symm]

/-! ## The command, where the directory is there -/

theorem act_list_eq_succeed {output : String} (hc : c.stateDir = s.dir)
    (there : t.resolve s.dir = .ok (FileTree.locate s.dir, some .directory))
    (h : listing c s t = (output, none)) : act c t .list = succeed output t := by
  simp only [act, hc, FileStore.open_of_there there, h]

theorem act_list_succeeds_iff (hc : c.stateDir = s.dir)
    (there : t.resolve s.dir = .ok (FileTree.locate s.dir, some .directory)) :
    (act c t .list).exit = 0 ↔ (listing c s t).2 = none := by
  simp only [act, hc, FileStore.open_of_there there]
  rcases listing c s t with ⟨output, - | e⟩ <;> simp [succeed, fail]

/-- A directory of any content. Its listing is in ascending order, has every stored document, and
has an item as often as names in the directory spell it. It is the listing of exactly the stored
documents, each once, if and only if the directory is tidy. The command that lists fails if and only
if an item is listed whose document is not stored and nothing over the limit lies at its place. A
word that begins a stored item means it if and only if no other name in the directory spells an item
that begins so. In a tidy directory the command therefore succeeds with one line for each document,
and a word that begins one stored item and no other means it. -/
theorem listed_exactly {s : FileStore} {t : FileTree} {names : List String} (distinct : t.Distinct)
    (content : t.list s.dir = .ok names) :
    ∃ items, s.list t = .ok items ∧
      items.Pairwise (fun a b => a.toNat ≤ b.toNat) ∧
      (∀ item, s.Stores t item → item ∈ items) ∧
      (∀ item, items.count item = names.countP (itemOfName? · == some item)) ∧
      ((items.Pairwise (fun a b => a.toNat < b.toNat) ∧ ∀ item, item ∈ items ↔ s.Stores t item) ↔
        s.Tidy t names) ∧
      (∀ c : Config, c.stateDir = s.dir → ((act c t .list).exit = 0 ↔
        ∀ item ∈ items, s.Stores t item ∨ ∃ n, s.size t item = .ok n ∧
          c.maxStateBytes.toNat ≤ n.getD 0)) ∧
      (∀ item (word : String), s.Stores t item → word.toList <+: item.text.toList →
        word.utf8ByteSize < 36 → (resolve s t word = .ok item ↔ ∀ name ∈ names, ∀ other,
          itemOfName? name = some other → word.toList <+: other.text.toList →
            name = fileName item)) ∧
      (s.Tidy t names →
        (∀ c : Config, c.stateDir = s.dir → ∃ lines,
          List.Forall₂ (fun item line => rowOf c s t item = .ok line) items lines ∧
          act c t .list = succeed (inventory s items lines) t) ∧
        ∀ item (word : String), s.Stores t item → word.toList <+: item.text.toList →
          word.utf8ByteSize < 36 →
          (∀ other, s.Stores t other → word.toList <+: other.text.toList → other = item) →
          resolve s t word = .ok item) := by
  have there := (FileTree.list_eq_ok content).1
  have hl := FileStore.list_eq content
  have words := fun item (word : String) (S : s.Stores t item)
      (begins : word.toList <+: item.text.toList) => resolve_stored_iff distinct content hl S begins
  refine ⟨_, hl, FileStore.sorted_list content hl, fun _ S => S.mem_list content hl,
    FileStore.count_list content hl, FileStore.exact_iff_tidy distinct content hl,
    fun c hc => (act_list_succeeds_iff hc there).trans (listing_complete_iff hl), words,
    fun T => ⟨?_, ?_⟩⟩
  · intro c hc
    have stored := ((FileStore.exact_iff_tidy distinct content hl).mpr T).2
    have each : ∀ item ∈ (names.filterMap itemOfName?).mergeSort Uuid.le,
        ∃ line, rowOf c s t item = .ok line :=
      fun item hi => rowOf_isOk_iff.mpr (.inl ((stored item).mp hi))
    obtain ⟨lines, all⟩ := exists_lines each
    exact ⟨lines, all, act_list_eq_succeed hc there (listing_eq_inventory hl all)⟩
  · intro item word S begins short alone
    refine (words item word S begins short).mpr fun name hn other spells begins' => ?_
    obtain rfl := alone other (T.stores content hn spells) begins'
    exact (T name hn _ spells).1

/-- A directory with one document, of no bytes. -/
def oneEmpty : FileTree :=
  ⟨[(["state"], .directory), (["state", fileName (.ofNat 1)], .file [])]⟩

theorem list_oneEmpty : (⟨"state"⟩ : FileStore).list oneEmpty = .ok [.ofNat 1] := by
  have names : oneEmpty.list "state" = .ok [fileName (.ofNat 1)] := FileTree.list_state (by decide)
  simp only [FileStore.list, names, List.filterMap_cons, FileStore.itemOfName?_fileName,
    List.filterMap_nil, List.mergeSort_singleton]

/-- A directory with a document, a second name in braces for its item, and a note. -/
def withSecondName : FileTree :=
  ⟨[(["state"], .directory), (["state", fileName (.ofNat 1)], .file []),
    (["state", "\x7b00000000-0000-0000-0000-000000000001\x7d.state"], .file [7]),
    (["state", "notes.txt"], .file [])]⟩

def secondNames : List String :=
  [fileName (.ofNat 1), "\x7b00000000-0000-0000-0000-000000000001\x7d.state", "notes.txt"]

theorem list_withSecondName : withSecondName.list "state" = .ok secondNames :=
  FileTree.list_state (by decide)

theorem tidy_oneEmpty : (⟨"state"⟩ : FileStore).Tidy oneEmpty [fileName (.ofNat 1)] := by
  intro name hn item spells
  obtain rfl := List.mem_singleton.mp hn
  rw [FileStore.itemOfName?_fileName] at spells
  obtain rfl := Option.some.inj spells
  exact ⟨rfl, [], by rw [FileTree.locate_state]; decide⟩

theorem listed_exactly_twice :
    withSecondName.Distinct ∧ withSecondName.list "state" = .ok secondNames ∧
    (⟨"state"⟩ : FileStore).Stores withSecondName (.ofNat 1) ∧
    (∃ items, (⟨"state"⟩ : FileStore).list withSecondName = .ok items ∧
      items.count (.ofNat 1) = 2) ∧
    (act inState withSecondName .list).exit = 0 ∧
    resolve ⟨"state"⟩ withSecondName "0" ≠ .ok (.ofNat 1) ∧
    (∃ lines, act inState oneEmpty .list =
      succeed (inventory ⟨"state"⟩ [.ofNat 1] lines) oneEmpty) ∧
    resolve ⟨"state"⟩ oneEmpty "0" = .ok (.ofNat 1) := by
  have distinct : withSecondName.Distinct := by unfold FileTree.Distinct; decide
  have stored : (⟨"state"⟩ : FileStore).Stores withSecondName (.ofNat 1) := by
    refine (FileStore.stores_iff (FileTree.list_eq_ok list_withSecondName).1).mpr ⟨[], ?_⟩
    rw [FileTree.locate_state]
    decide
  obtain ⟨items, hl, -, -, counted, -, exits, words, -⟩ :=
    listed_exactly (s := ⟨"state"⟩) distinct list_withSecondName
  obtain ⟨only, hl', -, -, -, exact, -, -, right⟩ := listed_exactly (s := ⟨"state"⟩)
    (show oneEmpty.Distinct by unfold FileTree.Distinct; decide) (FileTree.list_state (by decide))
  obtain rfl := Except.ok.inj (list_oneEmpty.symm.trans hl')
  have exact := (exact.mpr tidy_oneEmpty).2
  obtain ⟨shown, meant⟩ := right tidy_oneEmpty
  refine ⟨distinct, list_withSecondName, stored, ⟨items, hl, ?_⟩, ?_, ?_, ?_, ?_⟩
  · rw [counted]
    decide
  · refine (exits inState rfl).mpr fun item hi => .inl ?_
    have spelled : 0 < items.count item := List.count_pos_iff.mpr hi
    rw [counted, List.countP_pos_iff] at spelled
    obtain ⟨name, hn, spells⟩ := spelled
    have one : ∀ name ∈ secondNames, itemOfName? name = none ∨
        itemOfName? name = some (.ofNat 1) := by decide
    rcases one name hn with h | h <;> simp only [h, beq_iff_eq, reduceCtorEq] at spells
    exact Option.some.inj spells ▸ stored
  · intro h
    have only := (words (.ofNat 1) "0" stored (by decide) (by decide)).mp h _
      (by decide : "\x7b00000000-0000-0000-0000-000000000001\x7d.state" ∈ secondNames)
      (.ofNat 1) (by decide) (by decide)
    exact absurd only (by decide)
  · obtain ⟨lines, -, output⟩ := shown inState rfl
    exact ⟨lines, output⟩
  · refine meant (.ofNat 1) "0" ((exact _).mp List.mem_cons_self) (by decide) (by decide) ?_
    exact fun other held _ => List.mem_singleton.mp ((exact other).mpr held)

end Command

end ScriptHost
