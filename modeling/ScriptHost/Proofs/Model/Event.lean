import ScriptHost.Proofs.Model.Value
import ScriptHost.Model.Event

/-!
# Variables and events read back

What holds of a value holds of the records that values stand in: variables,
which are written in ascending order and put in one after another, and events
with their arguments and detections.
-/

namespace ScriptHost

open Json (Token Block Decoder greatest)
open Json.Decoder (Takes Feeds Yields yields_of_once)

/-! ## Variables -/

theorem insertSorted_last {α : Type} {name : String} {value : α} {l : List (String × α)}
    (h : ∀ p ∈ l, p.1 < name) : insertSorted name value l = l ++ [(name, value)] := by
  induction l with
  | nil => rfl
  | cons p l ih =>
    have hp := h p List.mem_cons_self
    rw [insertSorted, if_neg (String.lt_asymm hp), if_pos hp,
      ih fun p hp => h p (List.mem_cons_of_mem _ hp)]
    rfl

namespace Vars

/-- Bindings in ascending order are put in one behind the other. -/
theorem foldl_insert (vars : Vars) :
    vars.bindings.foldl (fun vars b => vars.insert b.1 b.2) empty = vars := by
  have grow : ∀ (more : List (String × Value)) (start : Vars),
      (start.bindings ++ more).Pairwise (fun a b => a.1 < b.1) →
      (more.foldl (fun vars b => vars.insert b.1 b.2) start).bindings = start.bindings ++ more := by
    intro more
    induction more with
    | nil => simp
    | cons b more ih =>
      intro start sorted
      have last : (start.insert b.1 b.2).bindings = start.bindings ++ [b] :=
        insertSorted_last fun p hp => (List.pairwise_append.mp sorted).2.2 p hp b List.mem_cons_self
      rw [List.foldl_cons, ih _ (by rwa [last, List.append_assoc]), last, List.append_assoc]
      rfl
  exact Vars.ext (grow vars.bindings empty vars.sorted)

def levels (vars : Vars) : Nat := 1 + greatest (vars.bindings.map fun b => b.2.levels)

def isFinite (vars : Vars) : Bool := vars.bindings.all fun b => b.2.isFinite

theorem block_tokens (vars : Vars) : Block vars.tokens vars.levels :=
  Block.object (List.forall₂_map_left_iff.mpr (List.forall₂_map_right_iff.mpr
    (List.forall₂_same.mpr fun b _ => b.2.block_tokens)))

theorem levels_le {vars : Vars} {n : Nat} :
    vars.levels ≤ n ↔ 0 < n ∧ ∀ b ∈ vars.bindings, b.2.levels ≤ n - 1 := by
  have : vars.levels ≤ n ↔
      0 < n ∧ greatest (vars.bindings.map fun b => b.2.levels) ≤ n - 1 := by
    unfold levels; omega
  rw [this, Json.greatest_le, List.forall_mem_map]

theorem takes_decoder (vars : Vars) {size : Nat} (levels : Nat) (h : vars.tokens.length ≤ size) :
    Takes (decoder size levels) vars.tokens vars (vars.levels ≤ levels ∧ vars.isFinite = true) := by
  have := Json.Decoder.takes_dictionary (fun v => v.levels ≤ levels - 1 ∧ v.isFinite = true)
    empty insert (fun b hb => b.2.takes_decoder size (levels - 1)
      ((Json.length_le_object (List.mem_map_of_mem hb)).trans h))
    (by simpa using (Json.count_le_object _).trans h)
  rw [foldl_insert] at this
  refine this.congr ?_
  simp only [levels_le, isFinite, List.all_eq_true, forall₂_and, and_assoc]

theorem yields_decoder (size levels : Nat) :
    Yields (decoder size levels) fun vars => vars.levels ≤ levels ∧ vars.isFinite = true := by
  have : Yields (decoder size levels) fun vars =>
      0 < levels ∧ ∀ b ∈ vars.bindings, b.2.Fits (levels - 1) :=
    Json.Decoder.yields_dictionary (Value.yields_decoder size (levels - 1))
      (List.forall_mem_nil _) ?_
  · refine this.mono fun vars h => ⟨levels_le.mpr ⟨h.1, fun b hb => (h.2 b hb).1⟩, ?_⟩
    exact List.all_eq_true.mpr fun b hb => (h.2 b hb).2
  · intro vars name v hvars hv b hb
    rcases mem_insertSorted hb with rfl | hb
    · exact hv
    · exact hvars b hb

end Vars

/-! ## Events -/

namespace Position

def isFinite (p : Position) : Bool := p.x.isFinite && p.y.isFinite && p.z.isFinite

theorem takes_decoder (p : Position) (levels : Nat) :
    Takes (decoder levels) p.tokens p (0 < levels ∧ p.isFinite = true) :=
  ((Value.takes_floats [p.x, p.y, p.z]).checked (f := ofList?) rfl).congr
    (by simp [isFinite, and_assoc])

theorem yields_decoder (levels : Nat) :
    Yields (decoder levels) fun p => 0 < levels ∧ p.isFinite = true := by
  refine (Json.Decoder.yields_tuple Json.Decoder.yields_float).checked fun xs p hx h => ?_
  unfold ofList? at h
  split at h <;> cases h
  exact ⟨hx.1, by simpa [isFinite, and_assoc] using hx.2⟩

end Position

namespace Detection

/-- The brackets of the record and of its position. -/
def levels (_ : Detection) : Nat := 2

def isFinite (d : Detection) : Bool := d.position.isFinite

theorem block_tokens (d : Detection) : Block d.tokens d.levels :=
  show Block d.tokens (1 + greatest [0, 0, 0, 1, 0]) from .object (.cons (.string _) (.cons (.string _)
    (.cons (.string _) (.cons (Value.block_floats _) (.cons (.int _) .nil)))))

theorem takes_int32 (n : Int32) : Takes
    (Decoder.map Int32.ofInt (Decoder.int Int32.minValue.toInt Int32.maxValue.toInt))
    [.int n.toInt] n True := by
  have low : -2 ^ 31 ≤ n.toInt := n.le_toInt
  have high : n.toInt < 2 ^ 31 := n.toInt_lt
  have := (Json.Decoder.takes_int Int32.minValue.toInt Int32.maxValue.toInt low (by change n.toInt ≤ 2 ^ 31 - 1; omega) (by omega) (by omega)).map Int32.ofInt
  rwa [Int32.ofInt_toInt] at this

theorem takes_decoder (d : Detection) {size : Nat} (levels : Nat) (h : d.tokens.length ≤ size) :
    Takes (decoder size levels) d.tokens d (d.levels ≤ levels ∧ d.isFinite = true) := by
  have feeds : Feeds (field (levels - 1)) ⟨none, none, none, none, none⟩ [
      ("key", [.string d.key.text]), ("owner", [.string d.owner.text]),
      ("name", [.string d.name]), ("position", d.position.tokens),
      ("link_number", [.int d.linkNumber.toInt])]
      ⟨some d.key, some d.owner, some d.name, some d.position, some d.linkNumber⟩
      (True ∧ True ∧ True ∧ (0 < levels - 1 ∧ d.position.isFinite = true) ∧ True ∧ True) :=
    .once rfl (Json.Decoder.takes_parsed (Uuid.parse?_text _))
      (.once rfl (Json.Decoder.takes_parsed (Uuid.parse?_text _))
        (.once rfl (Json.Decoder.takes_string _)
          (.once rfl (d.position.takes_decoder _)
            (.once rfl (takes_int32 _) (.nil _)))))
  exact (Json.Decoder.takes_record Draft.finish? (fun _ => feeds)
    ((Json.count_le_object _).trans h) rfl _).congr
      (by simpa [isFinite, Detection.levels] using Value.two_levels)

theorem yields_decoder (size levels : Nat) :
    Yields (decoder size levels) fun d => d.levels ≤ levels ∧ d.isFinite = true := by
  refine Yields.mono (Json.Decoder.yields_record
    (I := fun draft : Draft => ∀ p ∈ draft.position, 0 < levels - 1 ∧ p.isFinite = true)
    (P := fun d => 0 < levels - 1 ∧ d.isFinite = true) (fun _ => ?_) nofun ?_)
    fun d h => ⟨Nat.succ_le_of_lt (by omega), h.2.2⟩
  · intro draft key reader hd known
    unfold field at known
    split at known
    · exact yields_of_once known .trivial fun _ _ => hd
    · exact yields_of_once known .trivial fun _ _ => hd
    · exact yields_of_once known .trivial fun _ _ => hd
    · exact yields_of_once known (Position.yields_decoder _) fun p hp q hq => by cases hq; exact hp
    · exact yields_of_once known .trivial fun _ _ => hd
    · cases known
  · intro draft d hd h
    unfold Draft.finish? at h
    split at h <;> cases h
    exact hd _ ‹_›

end Detection

namespace Event

def levels (e : Event) : Nat :=
  2 + max (greatest (e.args.map Value.levels)) (greatest (e.detected.map Detection.levels))

def isFinite (e : Event) : Bool := e.args.all Value.isFinite && e.detected.all Detection.isFinite

/-- Arguments and detections may be nested two levels less than the event. -/
theorem levels_le {e : Event} {n : Nat} : e.levels ≤ n ↔ 2 ≤ n ∧
    (∀ v ∈ e.args, v.levels ≤ n - 2) ∧ ∀ d ∈ e.detected, d.levels ≤ n - 2 := by
  have : e.levels ≤ n ↔ 2 ≤ n ∧ greatest (e.args.map Value.levels) ≤ n - 2 ∧
      greatest (e.detected.map Detection.levels) ≤ n - 2 := by
    unfold levels; omega
  simp only [this, Json.greatest_le, List.forall_mem_map]

theorem block_tokens (e : Event) : Block e.tokens e.levels := by
  have args := Block.array_map Value.block_tokens e.args
  have detected := Block.array_map Detection.block_tokens e.detected
  have : Block e.tokens (1 + greatest [0, _, _]) := .object (.cons (.string e.name) (.cons args (.cons detected .nil)))
  rwa [show 1 + greatest [0, _, _] = e.levels by
    simp only [Json.greatest_cons, Json.greatest_nil, levels]; omega] at this

theorem takes_decoder (e : Event) {size : Nat} (levels : Nat) (h : e.tokens.length ≤ size) :
    Takes (decoder size levels) e.tokens e (e.levels ≤ levels ∧ e.isFinite = true) := by
  have inArgs : (Json.arrayTokens (e.args.map Value.tokens)).length ≤ size :=
    (Json.length_le_object (List.mem_cons_of_mem _ List.mem_cons_self)).trans h
  have inDetected : (Json.arrayTokens (e.detected.map Detection.tokens)).length ≤ size :=
    (Json.length_le_object (List.mem_cons_of_mem _ (List.mem_cons_of_mem _
      List.mem_cons_self))).trans h
  have args := Json.Decoder.takes_array (Value.decoder size) (levels - 1)
    (fun v hv => v.takes_decoder size (levels - 1 - 1)
      ((Json.length_le_array (List.mem_map_of_mem hv)).trans inArgs))
    (fun v _ => v.block_tokens.lead) (by simpa using (Json.count_le_array _).trans inArgs)
  have detected := Json.Decoder.takes_array (Detection.decoder size) (levels - 1)
    (fun d hd => d.takes_decoder (levels - 1 - 1)
      ((Json.length_le_array (List.mem_map_of_mem hd)).trans inDetected))
    (fun d _ => d.block_tokens.lead) (by simpa using (Json.count_le_array _).trans inDetected)
  have feeds : Feeds (field size (levels - 1)) ⟨none, none, none⟩
      [("name", [.string e.name]), ("args", _), ("detected", _)]
      ⟨some e.name, some e.args, some e.detected⟩ _ :=
    .once rfl (Json.Decoder.takes_string e.name) (.once rfl args (.once rfl detected (.nil _)))
  refine (Json.Decoder.takes_record Draft.finish? (fun _ => feeds)
    ((Json.count_le_object _).trans h) rfl _).congr ?_
  simp only [levels_le, isFinite, Bool.and_eq_true, List.all_eq_true, forall₂_and, true_and,
    and_true, Nat.sub_sub]
  constructor
  · rintro ⟨-, ⟨h2, args, args'⟩, -, detected, detected'⟩
    exact ⟨⟨by omega, args, detected⟩, args', detected'⟩
  · rintro ⟨⟨h2, args, detected⟩, args', detected'⟩
    exact ⟨by omega, ⟨by omega, args, args'⟩, by omega, detected, detected'⟩

/-- Arguments and detections may be missing, but are written as empty arrays then. -/
theorem yields_decoder (size : Nat) {levels : Nat} (h2 : 2 ≤ levels) :
    Yields (decoder size levels) fun e => e.levels ≤ levels ∧ e.isFinite = true := by
  refine Yields.mono (Json.Decoder.yields_record
    (I := fun draft : Draft => (∀ vs ∈ draft.args, ∀ v ∈ vs, v.Fits (levels - 2)) ∧
      ∀ ds ∈ draft.detected, ∀ d ∈ ds, d.levels ≤ levels - 2 ∧ d.isFinite = true)
    (P := fun e => e.levels ≤ levels ∧ e.isFinite = true) (fun _ => ?_) ⟨nofun, nofun⟩ ?_)
    fun e h => h.2
  · intro draft key reader hd known
    unfold field at known
    split at known
    · exact yields_of_once known .trivial fun _ _ => hd
    · exact yields_of_once known (Json.Decoder.yields_array (Value.yields_decoder size _))
        fun vs hvs => ⟨fun _ h => by cases h; exact hvs.2, hd.2⟩
    · exact yields_of_once known (Json.Decoder.yields_array (Detection.yields_decoder size _))
        fun ds hds => ⟨hd.1, fun _ h => by cases h; exact hds.2⟩
    · cases known
  · intro draft e hd h
    unfold Draft.finish? at h
    obtain ⟨name, -, rfl⟩ := Option.map_eq_some_iff.mp h
    have args : ∀ v ∈ draft.args.getD [], v.Fits (levels - 2) := by
      cases e : draft.args with
      | none => exact List.forall_mem_nil _
      | some vs => exact hd.1 vs e
    have detected : ∀ d ∈ draft.detected.getD [], d.levels ≤ levels - 2 ∧ d.isFinite = true := by
      cases e : draft.detected with
      | none => exact List.forall_mem_nil _
      | some ds => exact hd.2 ds e
    refine ⟨levels_le.mpr ⟨h2, fun v hv => (args v hv).1, fun d hd => (detected d hd).1⟩, ?_⟩
    simp only [isFinite, Bool.and_eq_true, List.all_eq_true]
    exact ⟨fun v hv => (args v hv).2, fun d hd => (detected d hd).2⟩

end Event

end ScriptHost
