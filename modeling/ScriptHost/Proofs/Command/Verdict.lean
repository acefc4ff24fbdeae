import ScriptHost.Command.Run
import ScriptHost.Proofs.Engine.Ladder
import ScriptHost.Proofs.Store.Document
import ScriptHost.Proofs.Store.Listing

/-!
# What the operator is told of a document

The commands judge a document by themselves: they have its size and its bytes
from the same files as an engine, but read and decode it on their own. They come
to what a load of the document would come to (`Command.judges_as_loaded`).
-/

namespace ScriptHost

/-! ## A document among the files -/

namespace FileStore

variable {s : FileStore} {t : FileTree} {item : Uuid} {data : Bytes}

theorem resolve_of_read (h : s.read t item = .ok data) :
    t.resolve (s.path item) = .ok (FileTree.locate (s.path item), some (.file data)) := by
  unfold read FileTree.read at h
  cases hr : t.resolve (s.path item) with
  | error e => simp [hr, Except.mapError] at h
  | ok p =>
    obtain ⟨loc, entry⟩ := p
    obtain ⟨rfl, -⟩ := Prod.mk.inj (FileTree.resolve_eq_ok hr)
    rcases entry with - | bytes | - <;> simp [hr, Except.mapError] at h
    rw [h]

theorem has_of_read (h : s.read t item = .ok data) : (DocumentStore.files s t).Has item data := by
  have resolved := resolve_of_read h
  constructor <;>
    simp [DocumentStore.read, DocumentStore.size, DocumentStore.holds, read, size, holds,
      FileTree.read, FileTree.size, resolved, Except.mapError, Except.isOk, Except.toBool]

/-- A document that can be read is listed. -/
theorem mem_list (h : s.read t item = .ok data) {items : List Uuid} (hl : s.list t = .ok items) :
    item ∈ items := by
  have stored : s.Stores t item := ⟨⟨_, (has_of_read h).size⟩, data, h⟩
  cases hn : t.list s.dir with
  | error e => simp [list, hn] at hl
  | ok names => exact stored.mem_list hn hl

end FileStore

namespace Command

variable {c : Config} {s : FileStore} {t : FileTree} {item : Uuid} {data : Bytes} {size : Nat}

/-! ## What is printed -/

/-- The line of a document that no load restores. -/
def unloadable (item : Uuid) (size : Nat) : String :=
  left 36 item.text ++ "  " ++ right 8 (toString size) ++ "  (unloadable)\n"

/-- The line of one that a load restores: whether the script runs, its named state, and when it was
saved. -/
def entry (item : Uuid) (size : Nat) (running : Bool) (state : String) (savedAt : Instant) :
    String :=
  left 36 item.text ++ "  " ++ right 8 (toString size) ++ "  " ++ left 8 (yesNo running) ++ "  " ++
    left 16 state ++ "  " ++ savedAt.brief ++ "\n"

/-- What the commands tell of a document that is too large. -/
def overLimit : String := "Status:     over limit, would be discarded on load\n"

/-- What they tell of one that cannot be decoded. -/
def malformed (f : Failure) : String :=
  s!"Status:     malformed, would be discarded on load ({(Error.encode f).message})\n"

/-- What they tell of what stands in one: the named state, whether the script runs, when it was
saved, how many bytes of plugin data there are, the names of the queued events, and the variables. -/
def contents (state : String) (running : Bool) (savedAt : Instant) (plugins : Nat)
    (queued : List String) (vars : Vars) : String :=
  s!"State:      {state}\n" ++ s!"Running:    {yesNo running}\n" ++
    s!"Saved:      {savedAt.text}\n" ++ s!"Plugin:     {plugins} bytes\n" ++
    s!"Queued:     {queued.length} event(s)\n" ++
    String.join (queued.map fun name => s!"  - {name}\n") ++
    s!"Vars:       {vars.bindings.length}\n" ++
    String.join (vars.bindings.map fun (name, value) => s!"  {name} = {value.text}\n")

theorem verdictLines_overLimit (h : judge c size data = .overLimit) :
    verdictLines c size data = overLimit := by
  simp only [verdictLines, h, overLimit]

theorem verdictLines_malformed {f : Failure} (h : judge c size data = .malformed f) :
    verdictLines c size data = malformed f := by
  unfold verdictLines malformed
  rw [h]

theorem verdictLines_loadable {d : Document} (h : judge c size data = .loadable d) :
    verdictLines c size data = contents d.state d.running d.savedAt d.pluginData.length
      (d.queue.map (·.name)) d.vars := by
  unfold verdictLines contents
  rw [h, List.length_map, List.map_map]
  rfl

theorem malformed_lead (f : Failure) : ∃ rest, malformed f = "Status:     m" ++ rest := by
  refine ⟨"alformed, would be discarded on load (" ++ ((Error.encode f).message ++ ")\n"), ?_⟩
  unfold malformed
  generalize (Error.encode f).message = message
  simp only [← String.toList_inj, String.toList_append, toString]
  simp

theorem contents_lead (state : String) (running : Bool) (savedAt : Instant) (plugins : Nat)
    (queued : List String) (vars : Vars) :
    ∃ rest, contents state running savedAt plugins queued vars = "State:      " ++ rest :=
  ⟨_, by unfold contents; simp only [String.append_assoc]; rfl⟩

theorem malformed_ne_overLimit (f : Failure) : malformed f ≠ overLimit := fun h => by
  obtain ⟨rest, e⟩ := malformed_lead f
  rw [e, overLimit, ← String.toList_inj, String.toList_append] at h
  simp at h

/-- The contents of a document are told from what is told of one that is not loaded. -/
theorem contents_ne {state : String} {running : Bool} {savedAt : Instant} {plugins : Nat}
    {queued : List String} {vars : Vars} :
    contents state running savedAt plugins queued vars ≠ overLimit ∧
      ∀ f, contents state running savedAt plugins queued vars ≠ malformed f := by
  obtain ⟨rest, e⟩ := contents_lead state running savedAt plugins queued vars
  rw [e]
  constructor
  · intro h
    rw [overLimit, ← String.toList_inj, String.toList_append] at h
    simp at h
  · intro f h
    obtain ⟨rest', e'⟩ := malformed_lead f
    rw [e', ← String.toList_inj, String.toList_append, String.toList_append] at h
    simp at h

/-- A line that is marked is the line of no document that is restored. -/
theorem entry_ne {item : Uuid} {size : Nat} {running : Bool} {state : String} {savedAt : Instant} :
    entry item size running state savedAt ≠ unloadable item size := by
  intro h
  simp only [entry, unloadable, String.append_assoc] at h
  have h := congrArg String.toList h
  simp only [String.toList_append] at h
  have h := List.append_cancel_left (List.append_cancel_left (List.append_cancel_left h))
  cases running <;> simp [left, yesNo] at h

theorem rowOf_eq (h : s.read t item = .ok data) :
    rowOf c s t item = .ok (match judge c data.length data with
      | .loadable d => entry item data.length d.running d.state d.savedAt
      | _ => unloadable item data.length) := by
  have size : s.size t item = .ok (some data.length) := (FileStore.has_of_read h).size
  unfold rowOf judge
  simp only [size, h, bind, Except.bind, Option.getD_some, pure, Except.pure]
  split
  · rfl
  · cases Document.decode data <;> rfl

theorem rows_append {before after : List Uuid} (h : (rows c s t before).2 = none) :
    rows c s t (before ++ after) =
      ((rows c s t before).1 ++ (rows c s t after).1, (rows c s t after).2) := by
  induction before with
  | nil => simp [rows]
  | cons item before ih =>
    rw [List.cons_append, rows, rows]
    unfold rows at h
    cases hr : rowOf c s t item with
    | error e => simp [hr] at h
    | ok line =>
      simp only [hr] at h
      simp only [ih h, String.append_assoc]

/-- The command lists every document that can be read, unless a line before it fails. -/
theorem listing_eq {before after : List Uuid} {line : String}
    (hl : s.list t = .ok (before ++ item :: after)) (hb : (rows c s t before).2 = none)
    (hr : rowOf c s t item = .ok line) :
    ∃ rest, (listing c s t).1 = headings ++ (rows c s t before).1 ++ line ++ rest := by
  have all : rows c s t (before ++ item :: after) =
      ((rows c s t before).1 ++ (line ++ (rows c s t after).1), (rows c s t after).2) := by
    rw [rows_append hb, rows, hr]
  unfold listing
  rw [hl]
  cases hn : before ++ item :: after with
  | nil => simp at hn
  | cons first others =>
    simp only [← hn, all]
    cases (rows c s t after).2 with
    | none => exact ⟨_, by simp only [String.append_assoc]; rfl⟩
    | some e => exact ⟨_, by simp only [String.append_assoc]; rfl⟩

theorem details_eq {word : String} (hw : resolve s t word = .ok item)
    (h : s.read t item = .ok data) :
    details c s t word = .ok (s!"Item:       {item.text}\n" ++ s!"Path:       {s.path item}\n" ++
      s!"Size:       {data.length} bytes (limit {c.maxStateBytes.toNat})\n" ++
      verdictLines c data.length data) := by
  have size : s.size t item = .ok (some data.length) := (FileStore.has_of_read h).size
  unfold details
  simp only [hw, size, h, bind, Except.bind, Except.mapError, Option.getD_some, pure, Except.pure]

/-- The identifier of an item means the item. -/
theorem resolve_text (s : FileStore) (t : FileTree) (item : Uuid) :
    resolve s t item.text = .ok item := by
  have size : item.text.utf8ByteSize = (Text.toBytes item.text).length := rfl
  have long : (Text.toBytes item.text).length = 36 := by
    simp [Uuid.toBytes_text, Text.asciiBytes, Uuid.toChars, Uuid.hexDigits]
  rw [resolve, if_pos (by omega), Uuid.parse?_text]

/-! ## The commands on a stored document -/

section Stored

variable {t₀ : FileTree} (opened : FileStore.open t₀ c.stateDir = .ok (s, t))

include opened

/-- The line of a document that the store can read, in the list of all. -/
theorem lists {line : String} (hr : rowOf c s t item = .ok line) (before after : List Uuid)
    (hl : s.list t = .ok (before ++ item :: after)) (hb : (rows c s t before).2 = none) :
    ∃ rest, (act c t₀ .list).output = headings ++ (rows c s t before).1 ++ line ++ rest := by
  obtain ⟨rest, e⟩ := listing_eq hl hb hr
  refine ⟨rest, ?_⟩
  rw [← e]
  simp only [act, opened]
  split <;> next hr => simp only [hr, succeed, fail]

/-- What is shown of a document that the store can read. -/
theorem shows (stored : s.read t item = .ok data) (word : String) (hw : resolve s t word = .ok item) :
    act c t₀ (.show word) = succeed (s!"Item:       {item.text}\n" ++
      s!"Path:       {s.path item}\n" ++
      s!"Size:       {data.length} bytes (limit {c.maxStateBytes.toNat})\n" ++
      verdictLines c data.length data) t := by
  simp only [act, opened, details_eq hw stored]

end Stored

end Command

/-- An engine on these files and with the limit of the configuration, in which a load finds its
entity; nothing fails on the way, and nobody calls back. -/
structure Machine.OnFiles (m : Machine) (c : Config) (s : FileStore) (t : FileTree) (l : Loading) :
    Prop where
  unhooked : m.hooks = ([], [], [])
  known : ∃ e, m.entity? l.request.identity.localId = some e
  sized : m.has .failSize = false
  read : m.has .failRead = false
  store : m.store = .files s t
  limit : l.limits.maxStateBytes = c.maxStateBytes.toNat

namespace Command

/-- A document that is stored among the files, whatever its bytes are and whatever the limit, and a
load of its item in an engine on the same files and with the same limit. The load takes one path
and makes an instance. The list of all documents has the item, and its line marks it as unloadable
if and only if the load does not restore it; else the line says the running flag and the named state
that the instance has. What is shown of the item says that it is over the limit if
and only if the load finds it oversized, and that it is malformed if and only if the load finds it
malformed; and otherwise it says the named state and the running flag that the instance has, the
names of the events that its queue is filled with, before what is posted to it, and the variables
that its program is given. -/
theorem judges_as_loaded {c : Config} {t₀ t : FileTree} {s : FileStore} {m : Machine} {l : Loading}
    {item : Uuid} {data : Bytes} (opened : FileStore.open t₀ c.stateDir = .ok (s, t))
    (stored : s.read t item = .ok data) (E : m.OnFiles c s t l)
    (asked : l.request.identity.item = item) :
    ∃ path j, m.Loads l path j ∧
      (∃ line, rowOf c s t item = .ok line ∧ (∀ items, s.list t = .ok items → item ∈ items) ∧
        (∀ before after, s.list t = .ok (before ++ item :: after) →
          (rows c s t before).2 = none → ∃ rest,
            (act c t₀ .list).output = headings ++ (rows c s t before).1 ++ line ++ rest) ∧
        (line = unloadable item data.length ↔ path ≠ "restored") ∧
        (path = "restored" → ∃ savedAt,
          line = entry item data.length j.slot.running j.state savedAt)) ∧
      ∃ lines, (∀ word, resolve s t word = .ok item →
          act c t₀ (.show word) = succeed (s!"Item:       {item.text}\n" ++
            s!"Path:       {s.path item}\n" ++
            s!"Size:       {data.length} bytes (limit {c.maxStateBytes.toNat})\n" ++ lines) t) ∧
        (lines = overLimit ↔ path = "oversized") ∧
        ((∃ f, lines = malformed f) ↔ path = "malformed") ∧
        (path ≠ "oversized" → path ≠ "malformed" → path = "restored" ∧ ∃ d : Document,
          lines = contents j.state j.slot.running d.savedAt d.pluginData.length
            (d.queue.map (·.name)) d.vars ∧
          j.vars = l.program.retain d.vars ∧
          j.slot.queue = (Queue.empty l.limits.queueCapacity).pushAll
            (d.queue ++ if d.running then l.request.greetings d else [])) := by
  have R : m.Reads l data :=
    ⟨E.unhooked, E.known, E.sized, E.read, by
      rw [E.store, asked]; exact FileStore.has_of_read stored⟩
  have listed : ∀ items, s.list t = .ok items → item ∈ items :=
    fun _ h => FileStore.mem_list stored h
  -- What is printed follows from the judgement, and the judgement decides the path.
  have line := rowOf_eq (c := c) stored
  have shown := shows opened stored
  by_cases large : c.maxStateBytes.toNat ≤ data.length
  · have hj : judge c data.length data = .overLimit := by rw [judge, if_pos large]
    rw [hj] at line
    rw [verdictLines_overLimit hj] at shown
    obtain ⟨j, loads⟩ := R.oversized (E.limit ▸ large)
    refine ⟨_, j, loads, ⟨_, line, listed, lists opened line, by simp, by simp⟩, _, shown, by simp,
      ?_, by simp⟩
    exact iff_of_false (fun ⟨f, h⟩ => malformed_ne_overLimit f h.symm) (by decide)
  have below : data.length < l.limits.maxStateBytes := by rw [E.limit]; omega
  cases hd : Document.decode data with
  | error f =>
    have hj : judge c data.length data = .malformed f := by rw [judge, if_neg large, hd]
    rw [hj] at line
    rw [verdictLines_malformed hj] at shown
    obtain ⟨j, loads⟩ := R.malformed below hd
    refine ⟨_, j, loads, ⟨_, line, listed, lists opened line, by simp, by simp⟩, _, shown, ?_, ?_,
      by simp⟩
    · exact iff_of_false (malformed_ne_overLimit f) (by decide)
    · exact iff_of_true ⟨f, rfl⟩ rfl
  | ok d =>
    have hj : judge c data.length data = .loadable d := by rw [judge, if_neg large, hd]
    rw [hj] at line
    rw [verdictLines_loadable hj] at shown
    obtain ⟨j, loads, state, running, vars, queue⟩ := R.restored below hd
    refine ⟨_, j, loads, ⟨_, line, listed, lists opened line, ?_, fun _ => ⟨d.savedAt, ?_⟩⟩, _, shown,
      ?_, ?_, fun _ _ => ⟨rfl, d, ?_⟩⟩
    · exact iff_of_false entry_ne (by simp)
    · rw [state, running]
    · exact iff_of_false contents_ne.1 (by decide)
    · exact iff_of_false (fun ⟨f, h⟩ => contents_ne.2 f h) (by decide)
    · exact ⟨by rw [state, running], vars, queue⟩

/-- A document as a save writes it. -/
def kept : Document := ⟨"open", true, .empty, [], [], ⟨⟨2000, 1, 1⟩, 0, 0, 0⟩⟩

/-- A directory with a document of no bytes and one that is sound. -/
def sideBySide : FileTree :=
  ⟨[(["state"], .directory), (["state", FileStore.fileName (.ofNat 1)], .file []),
    (["state", FileStore.fileName (.ofNat 2)], .file kept.encode)]⟩

/-- The usual configuration, with the documents in that directory. -/
def inState : Config := { Config.default with stateDir := "state" }

/-- An engine on that directory. -/
def besideKept : Machine := { Machine.bare false with store := .files ⟨"state"⟩ sideBySide }

def loadingKept : Loading :=
  { System.loadingCounter .newRez with
    request := ⟨{ (default : Identity) with item := .ofNat 2 }, 0, false, .newRez⟩
    limits := .ofConfig inState }

theorem resolve_sideBySide : sideBySide.resolve "state" =
    .ok (FileTree.locate "state", some .directory) := by
  rw [FileTree.locate_state]
  exact FileTree.resolve_state (by decide)

theorem open_sideBySide :
    FileStore.open sideBySide inState.stateDir = .ok (⟨"state"⟩, sideBySide) :=
  FileStore.open_of_there (s := ⟨"state"⟩) resolve_sideBySide

theorem read_sideBySide (item : Uuid) (data : Bytes)
    (there : sideBySide.get? ["state", FileStore.fileName item] = some (.file data)) :
    (⟨"state"⟩ : FileStore).read sideBySide item = .ok data := by
  have resolved : sideBySide.resolve (FileStore.path ⟨"state"⟩ item) = _ :=
    FileStore.resolve_path resolve_sideBySide
  rw [FileTree.locate_state] at resolved
  simp [FileStore.read, FileTree.read, resolved, there, Except.mapError]

theorem list_sideBySide :
    (⟨"state"⟩ : FileStore).list sideBySide = .ok ([.ofNat 1] ++ .ofNat 2 :: []) := by
  have names : sideBySide.list "state" =
      .ok [FileStore.fileName (.ofNat 1), FileStore.fileName (.ofNat 2)] :=
    FileTree.list_state (by decide)
  simp only [FileStore.list, names, List.filterMap_cons, FileStore.itemOfName?_fileName,
    List.filterMap_nil]
  exact congrArg Except.ok (List.mergeSort_of_pairwise (by decide))

theorem length_kept : kept.encode.length < inState.maxStateBytes.toNat := by
  have quoted : Json.quote = fun s =>
      (s.toList.foldl (fun out c => (Json.quoteChar c).foldl String.push out) "\"").push '"' :=
    funext fun s => by rw [Json.quote, String.foldl_eq_foldl_toList]
  have tokens : kept.tokens = [.openObject, .string "state", .colon, .string "open", .comma,
      .string "running", .colon, .bool true, .comma, .string "vars", .colon, .openObject,
      .closeObject, .comma, .string "plugin_data", .colon, .openArray, .closeArray, .comma,
      .string "queue", .colon, .openArray, .closeArray, .comma, .string "saved_at", .colon,
      .string "2000-01-01T00:00:00Z", .closeObject] := by decide
  rw [Document.encode, Document.text, tokens]
  unfold Json.indented Json.Layout.add Json.Token.written
  rw [quoted]
  decide +kernel

/-- The document of no bytes is marked, and the sound one is not: it is restored. -/
theorem judges_as_loaded_kept : ∃ j, besideKept.Loads loadingKept "restored" j ∧
    (∃ savedAt rest, (act inState sideBySide .list).output = headings ++ unloadable (.ofNat 1) 0 ++
      entry (.ofNat 2) kept.encode.length j.slot.running j.state savedAt ++ rest) ∧
    ∃ front lines, act inState sideBySide (.show (Uuid.ofNat 2).text) =
        succeed (front ++ lines) sideBySide ∧
      ∃ d : Document, lines = contents j.state j.slot.running d.savedAt d.pluginData.length
        (d.queue.map (·.name)) d.vars ∧ j.vars = loadingKept.program.retain d.vars := by
  have empty := read_sideBySide (.ofNat 1) [] rfl
  have sound := read_sideBySide (.ofNat 2) kept.encode rfl
  have decodes : Document.decode kept.encode = .ok kept :=
    (Document.decode_encode (by decide)).1 ⟨by decide, by decide⟩
  have judged : judge inState kept.encode.length kept.encode = .loadable kept := by
    rw [judge, if_neg (Nat.not_le.mpr length_kept), decodes]
  have before : rows inState ⟨"state"⟩ sideBySide [.ofNat 1] = (unloadable (.ofNat 1) 0, none) := by
    rw [rows, rowOf_eq empty]
    rfl
  obtain ⟨path, j, loads, ⟨line, hr, -, listed, marked, restored⟩, lines, shown, large, bad, whole⟩ :=
    judges_as_loaded (m := besideKept) (l := loadingKept) open_sideBySide sound
      ⟨rfl, ⟨default, rfl⟩, by decide, by decide, rfl, rfl⟩ rfl
  obtain ⟨rest, output⟩ := listed [.ofNat 1] [] list_sideBySide (by rw [before])
  have plain : line = entry (.ofNat 2) kept.encode.length true "open" kept.savedAt := by
    rw [rowOf_eq sound, judged] at hr
    exact (Except.ok.inj hr).symm
  obtain rfl : path = "restored" :=
    Classical.byContradiction fun h => entry_ne (plain.symm.trans (marked.mpr h))
  obtain ⟨savedAt, told⟩ := restored rfl
  obtain ⟨-, d, same, vars, -⟩ := whole (by decide) (by decide)
  rw [before, told] at output
  exact ⟨j, loads, ⟨savedAt, rest, output⟩, _, lines, shown _ (resolve_text _ _ _), d, same, vars⟩

end Command

end ScriptHost
