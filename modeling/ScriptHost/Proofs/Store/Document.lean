import ScriptHost.Proofs.Model.Event
import ScriptHost.Proofs.Model.Instant
import ScriptHost.Store.Document

/-!
# Documents read back

A document is read back, in every field, exactly if its floats are finite and
its text opens no more brackets than the reader admits; and whatever the
reader makes of any bytes is such a document.
-/

namespace ScriptHost

open Json (Token Block Decoder greatest)
open Json.Decoder (Takes Feeds Yields yields_of_once)

namespace Document

def levels (d : Document) : Nat :=
  1 + max d.vars.levels (1 + greatest (d.queue.map Event.levels))

/-- Whether all floats in variables, arguments and positions are numbers. -/
def isFinite (d : Document) : Bool := d.vars.isFinite && d.queue.all Event.isFinite

theorem levels_le {d : Document} {n : Nat} : d.levels ≤ n ↔
    2 ≤ n ∧ d.vars.levels ≤ n - 1 ∧ ∀ e ∈ d.queue, e.levels ≤ n - 2 := by
  have : d.levels ≤ n ↔
      2 ≤ n ∧ d.vars.levels ≤ n - 1 ∧ greatest (d.queue.map Event.levels) ≤ n - 2 := by
    unfold levels; omega
  simp only [this, Json.greatest_le, List.forall_mem_map]

theorem block_tokens (d : Document) : Block d.tokens d.levels := by
  have bytes := Block.array_map (fun b : UInt8 => Block.int b.toNat) d.pluginData
  have queue := Block.array_map Event.block_tokens d.queue
  have flat : greatest (d.pluginData.map fun _ => 0) = 0 :=
    Nat.le_zero.mp (Json.greatest_le.mpr (by simp))
  have : Block d.tokens (1 + greatest [0, 0, _, _, _, 0]) := .object
    (.cons (.string d.state) (.cons (.bool d.running) (.cons d.vars.block_tokens
      (.cons bytes (.cons queue (.cons (.string d.savedAt.encoded) .nil))))))
  rwa [show 1 + greatest [0, 0, _, _, _, 0] = d.levels by
    have : 0 < d.vars.levels := by unfold Vars.levels; omega
    simp only [Json.greatest_cons, Json.greatest_nil, levels, flat]
    omega] at this

theorem takes_byte (b : UInt8) : Takes byte [.int b.toNat] b True := by
  have := b.toNat_lt
  have := (Json.Decoder.takes_int 0 255 (by omega : 0 ≤ (b.toNat : Int))
    (by omega) (by omega) (by omega)).map fun n => UInt8.ofNat n.toNat
  rwa [Int.toNat_natCast, UInt8.ofNat_toNat] at this

/-- A document of a moment of the calendar is read exactly if its floats are finite and its
brackets may be opened. -/
theorem takes_decoder {d : Document} (valid : d.savedAt.Valid) {size : Nat} (levels : Nat)
    (h : d.tokens.length ≤ size) :
    Takes (decoder size levels) d.tokens d (d.levels ≤ levels ∧ d.isFinite = true) := by
  have inVars : d.vars.tokens.length ≤ size :=
    (Json.length_le_object (m := ("vars", d.vars.tokens)) (by simp)).trans h
  have inBytes : (Json.arrayTokens (d.pluginData.map fun b => [.int b.toNat])).length ≤ size :=
    (Json.length_le_object (m := ("plugin_data", Json.arrayTokens _)) (by simp)).trans h
  have inQueue : (Json.arrayTokens (d.queue.map Event.tokens)).length ≤ size :=
    (Json.length_le_object (m := ("queue", Json.arrayTokens _)) (by simp)).trans h
  have vars := d.vars.takes_decoder (levels - 1) inVars
  have bytes := Json.Decoder.takes_array (fun _ => byte) (levels - 1)
    (fun b _ => takes_byte b) (fun b _ => (Block.int _).lead)
    (by simpa using (Json.count_le_array _).trans inBytes)
  have queue := Json.Decoder.takes_array (Event.decoder size) (levels - 1)
    (fun e he => e.takes_decoder (levels - 1 - 1)
      ((Json.length_le_array (List.mem_map_of_mem he)).trans inQueue))
    (fun e _ => e.block_tokens.lead) (by simpa using (Json.count_le_array _).trans inQueue)
  have feeds : Feeds (field size (levels - 1)) ⟨none, none, none, none, none, none⟩
      [("state", [.string d.state]), ("running", [.bool d.running]), ("vars", _),
        ("plugin_data", _), ("queue", _), ("saved_at", [.string d.savedAt.encoded])]
      ⟨some d.state, some d.running, some d.vars, some d.pluginData, some d.queue,
        some d.savedAt⟩ _ :=
    .once rfl (Json.Decoder.takes_string d.state)
      (.once rfl (Json.Decoder.takes_bool d.running)
        (.once rfl vars (.once rfl bytes (.once rfl queue
          (.once rfl (Json.Decoder.takes_parsed (Instant.parse?_encoded valid)) (.nil _))))))
  refine (Json.Decoder.takes_record Draft.finish? (fun _ => feeds)
    ((Json.count_le_object _).trans h) rfl _).congr ?_
  simp only [levels_le, isFinite, Bool.and_eq_true, List.all_eq_true, forall₂_and, true_and,
    and_true, implies_true, Nat.sub_sub]
  constructor
  · rintro ⟨-, ⟨vars, vars'⟩, h2, -, queue, queue'⟩
    exact ⟨⟨by omega, vars, queue⟩, vars', queue'⟩
  · rintro ⟨⟨h2, vars, queue⟩, vars', queue'⟩
    exact ⟨by omega, ⟨vars, vars'⟩, by omega, by omega, queue, queue'⟩

/-- What a reader makes could be written and read again: a queue that is missing, and an event
without arguments, are written as empty arrays, for which there is room. -/
theorem yields_decoder (size : Nat) {levels : Nat} (h4 : 4 ≤ levels) :
    Yields (decoder size levels) fun d =>
      d.savedAt.Valid ∧ d.levels ≤ levels ∧ d.isFinite = true := by
  refine Yields.mono (Json.Decoder.yields_record
    (I := fun draft : Draft => (∀ t ∈ draft.savedAt, t.Valid) ∧
      (∀ vars ∈ draft.vars, vars.levels ≤ levels - 1 ∧ vars.isFinite = true) ∧
      ∀ es ∈ draft.queue, ∀ e ∈ es, e.levels ≤ levels - 2 ∧ e.isFinite = true)
    (P := fun d => d.savedAt.Valid ∧ d.levels ≤ levels ∧ d.isFinite = true) (fun _ => ?_)
    ⟨nofun, nofun, nofun⟩ ?_) fun d h => h.2
  · intro draft key reader hd known
    unfold field at known
    split at known
    · exact yields_of_once known .trivial fun _ _ => hd
    · exact yields_of_once known .trivial fun _ _ => hd
    · exact yields_of_once known (Vars.yields_decoder size _)
        fun vars h => ⟨hd.1, fun _ e => by cases e; exact h, hd.2.2⟩
    · exact yields_of_once known .trivial fun _ _ => hd
    · exact yields_of_once known
        (Json.Decoder.yields_array (Event.yields_decoder size (by omega : 2 ≤ levels - 1 - 1)))
        fun es h => ⟨hd.1, hd.2.1, fun _ e => by cases e; exact h.2⟩
    · exact yields_of_once known (Json.Decoder.yields_parsed Instant.parse?)
        fun t ⟨_, h⟩ => ⟨fun _ e => by cases e; exact Instant.valid_of_parse? h, hd.2⟩
    · cases known
  · intro draft d hd h
    unfold Draft.finish? at h
    split at h
    · next state running savedAt _ _ hsaved =>
      cases h
      have vars : (draft.vars.getD .empty).levels ≤ levels - 1 ∧
          (draft.vars.getD .empty).isFinite = true := by
        cases e : draft.vars with
        | none => exact ⟨show 1 ≤ levels - 1 by omega, rfl⟩
        | some vars => exact hd.2.1 vars e
      have queue : ∀ e ∈ draft.queue.getD [], e.levels ≤ levels - 2 ∧ e.isFinite = true := by
        cases e : draft.queue with
        | none => exact List.forall_mem_nil _
        | some es => exact hd.2.2 es e
      refine ⟨hd.1 _ hsaved, levels_le.mpr ⟨by omega, vars.1, fun e he => (queue e he).1⟩, ?_⟩
      simp only [isFinite, Bool.and_eq_true, List.all_eq_true]
      exact ⟨vars.2, fun e he => (queue e he).2⟩
    · cases h

theorem lex_encode (d : Document) : Json.lex d.encode = d.tokens :=
  Json.lex_indented d.block_tokens.writable

/-- What the brackets of a document are nested, seen from its text. -/
theorem nesting_encode (d : Document) : Json.nesting (Json.lex d.encode) = d.levels := by
  rw [lex_encode, d.block_tokens.nesting]

/-- A document with other floats, or with brackets that are too deep, cannot be read back. -/
theorem decode_encode {d : Document} (valid : d.savedAt.Valid) :
    (d.isFinite = true ∧ d.levels ≤ Json.maxLevels → decode d.encode = .ok d) ∧
      (¬ (d.isFinite = true ∧ d.levels ≤ Json.maxLevels) → ∃ e, decode d.encode = .error e) := by
  have takes := takes_decoder valid Json.maxLevels (Nat.le_refl d.tokens.length)
  unfold decode Json.decode
  rw [lex_encode]
  constructor
  · intro h
    have := takes.ok h.symm []
    rw [List.append_nil] at this
    simp only [this]
  · intro h
    obtain ⟨e, he⟩ := takes.refused (fun g => h g.symm) []
    rw [List.append_nil] at he
    exact ⟨e, by simp only [he]⟩

/-- Whatever bytes a document was read from, it is written so that it can be read again. -/
theorem of_decode {bytes : Bytes} {d : Document} (h : decode bytes = .ok d) :
    d.savedAt.Valid ∧ d.levels ≤ Json.maxLevels ∧ d.isFinite = true := by
  unfold decode Json.decode at h
  simp only at h
  split at h
  · cases h
  · next he => cases h; exact yields_decoder _ (by decide) he
  · cases h

/-- Every document with finite floats, and brackets no deeper than the reader admits, is read
back as it was; and only such documents are ever read, so one that loads will load again. The
moment of saving is one of the calendar. Of the reader of doubles this needs that they read back
as they were written (`Binary64.ReadsBack`). -/
theorem codec_round_trip :
    (∀ d : Document, d.savedAt.Valid → d.isFinite = true →
      Json.nesting (Json.lex d.encode) ≤ Json.maxLevels → decode d.encode = .ok d) ∧
    ∀ (bytes : Bytes) (d : Document), decode bytes = .ok d →
      (d.savedAt.Valid ∧ d.isFinite = true ∧ Json.nesting (Json.lex d.encode) ≤ Json.maxLevels) ∧
        decode d.encode = .ok d := by
  have back : ∀ d : Document, d.savedAt.Valid → d.isFinite = true →
      Json.nesting (Json.lex d.encode) ≤ Json.maxLevels → decode d.encode = .ok d := by
    intro d valid finite shallow
    rw [nesting_encode] at shallow
    exact (decode_encode valid).1 ⟨finite, shallow⟩
  refine ⟨back, fun bytes d h => ?_⟩
  obtain ⟨valid, shallow, finite⟩ := of_decode h
  rw [← nesting_encode] at shallow
  exact ⟨⟨valid, finite, shallow⟩, back d valid finite shallow⟩

/-- The least and the greatest double, a negative zero, controls and quotes in a text, a list in a
list, a leap second before our era. -/
def crowded : Document where
  state := "é\n\"open\""
  running := true
  vars := Vars.empty.insert "edge" (.vector ⟨1⟩ (.zero true) ⟨0x7fefffffffffffff⟩)
    |>.insert "deep" (.list [.list [.float ⟨0x3fb999999999999a⟩, .string ""], .integer (-3)])
  pluginData := [0, 255]
  queue := [⟨"touch_start", [.key .nil], [⟨.nil, .ofNat 7, "A", ⟨0, 0, ⟨0x4b3b1ae4d6e2ef50⟩⟩, -1⟩]⟩]
  savedAt := ⟨⟨-43, 2, 28⟩, 1439, 60, 120000000⟩

theorem codec_round_trip_crowded : decode crowded.encode = .ok crowded :=
  codec_round_trip.1 crowded ⟨by decide, by decide, by decide, by decide⟩ (by decide)
    (by rw [nesting_encode]; decide)

end Document

end ScriptHost
