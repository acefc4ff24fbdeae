import ScriptHost.Proofs.Json.Decoding
import ScriptHost.Proofs.Model.Uuid
import ScriptHost.Model.Value

/-!
# Values read back

A value is read back exactly if its floats are finite and the reader may open
as many brackets as the value takes; and a reader makes no other values, from
a content that had to be kept until its type was known just as well.
-/

namespace ScriptHost

namespace Value

open Json (Token Block Decoder)
open Json.Decoder (Takes Feeds Yields)

mutual

/-- How deep the brackets of a value are nested. -/
def levels : Value → Nat
  | vector _ _ _ | rotation _ _ _ _ => 2
  | list items => 2 + itemLevels items
  | _ => 1

def itemLevels : List Value → Nat
  | [] => 0
  | v :: vs => max v.levels (itemLevels vs)

end

mutual

/-- Whether all floats in a value are numbers. -/
def isFinite : Value → Bool
  | float x => x.isFinite
  | vector x y z => x.isFinite && y.isFinite && z.isFinite
  | rotation x y z s => x.isFinite && y.isFinite && z.isFinite && s.isFinite
  | list items => itemsFinite items
  | _ => true

def itemsFinite : List Value → Bool
  | [] => true
  | v :: vs => v.isFinite && itemsFinite vs

end

theorem itemLevels_eq (vs : List Value) : itemLevels vs = Json.greatest (vs.map levels) := by
  induction vs with
  | nil => rfl
  | cons v vs ih => rw [itemLevels, ih]; rfl

theorem itemsFinite_iff (vs : List Value) : itemsFinite vs = true ↔ ∀ v ∈ vs, v.isFinite = true := by
  induction vs with
  | nil => simp [itemsFinite]
  | cons v vs ih => simp [itemsFinite, ih]

theorem itemTokens_eq (vs : List Value) : itemTokens vs = vs.map tokens := by
  induction vs with
  | nil => rfl
  | cons v vs ih => rw [itemTokens, ih]; rfl

theorem itemLevels_le {vs : List Value} {n : Nat} :
    itemLevels vs ≤ n ↔ ∀ v ∈ vs, v.levels ≤ n := by
  rw [itemLevels_eq, Json.greatest_le]
  simp

/-! ## Writing -/

theorem block_floats (xs : List Binary64) : Block (floatTokens xs) 1 := by
  have := Block.array_map Block.float xs
  rwa [show Json.greatest (xs.map fun _ => 0) = 0 from
    Nat.le_zero.mp (Json.greatest_le.mpr (by simp))] at this

theorem block_tagged {content : List Token} {depth : Nat} (h : Block content depth)
    (type : String) : Block (tagged type content) (1 + depth) := by
  have : Block (tagged type content) (1 + Json.greatest [0, depth]) :=
    .object (.cons (.string type) (.cons h .nil))
  simpa using this

mutual

/-- A value is written as one block. -/
theorem block_tokens : ∀ v : Value, Block v.tokens v.levels
  | integer _ => block_tagged (.int _) "integer"
  | float _ => block_tagged (.float _) "float"
  | string _ => block_tagged (.string _) "string"
  | key _ => block_tagged (.string _) "key"
  | vector _ _ _ => block_tagged (block_floats _) "vector"
  | rotation _ _ _ _ => block_tagged (block_floats _) "rotation"
  | list items => by
    have := block_tagged (Block.array (blocks_items items)) "list"
    rwa [← Nat.add_assoc, ← itemLevels_eq] at this

theorem blocks_items : ∀ vs : List Value, List.Forall₂ Block (itemTokens vs) (vs.map levels)
  | [] => .nil
  | v :: vs => .cons (block_tokens v) (blocks_items vs)

end

/-! ## Reading -/

theorem takes_floats (xs : List Binary64) {levels : Nat} :
    Takes (Decoder.tuple levels xs.length Decoder.float) (floatTokens xs) xs
      (0 < levels ∧ ∀ x ∈ xs, x.isFinite = true) :=
  Json.Decoder.takes_tuple (fun x _ => Json.Decoder.takes_float x) fun x _ => (Block.float x).lead

/-- A value behind its type. -/
theorem takes_tagged {size levels : Nat} {items : Nat → Decoder (List Value)} {k : Kind}
    {type : String} {ts : List Token} {v : Value} {good : Prop} (hk : Kind.parse? type = some k)
    (hc : 0 < levels → Takes (content (levels - 1) (items (levels - 1)) k) ts v good)
    (hsize : (tagged type ts).length ≤ size) (names : List String) :
    Takes (Decoder.record size levels names .start (field size items) Draft.finish?)
      (tagged type ts) v (0 < levels ∧ good) := by
  have members : 2 ≤ size :=
    Nat.le_trans (Json.count_le_object [("type", [.string type]), ("value", ts)]) hsize
  have feeds : 0 < levels → Feeds (field size items (levels - 1)) .start
      [("type", [.string type]), ("value", ts)] (.done v) (True ∧ good ∧ True) := fun h =>
    .cons rfl ((Json.Decoder.takes_choice hk _).map Draft.kind)
      (.cons rfl ((hc h).map Draft.done) (.nil _))
  exact (Json.Decoder.takes_record Draft.finish? feeds members rfl names).congr
    (by rw [true_and, and_true])

/-- The reader of what is in a list: two levels are gone, its value's and the list's. -/
def inside (size : Nat) : Nat → Decoder Value
  | 0 => fun _ => .error .malformed
  | levels + 1 => decoder size levels

theorem decoder_succ (size levels : Nat) : decoder size (levels + 1) =
    Decoder.record size (levels + 1) ["type", "value"] .start
      (field size fun _ => Decoder.array size levels fun _ => inside size levels) Draft.finish? := by
  cases levels <;> rfl

theorem takes_typed {size levels : Nat} {k : Kind} {type : String} {ts : List Token} {v : Value}
    {good : Prop} (hk : Kind.parse? type = some k)
    (hc : 0 < levels → Takes (content (levels - 1)
      (Decoder.array size (levels - 1) fun _ => inside size (levels - 1)) k) ts v good)
    (hsize : (tagged type ts).length ≤ size) :
    Takes (decoder size levels) (tagged type ts) v (0 < levels ∧ good) := by
  cases levels with
  | zero => exact ⟨fun g => absurd g.1 (by decide), fun _ rest => ⟨.malformed, rfl⟩⟩
  | succ levels =>
    rw [decoder_succ]
    exact takes_tagged hk hc hsize _

theorem takes_int64 (n : Int64) : Takes
    (Decoder.map (fun n => Value.integer (Int64.ofInt n)) (Decoder.int least Value.greatest))
    [.int n.toInt] (.integer n) True := by
  have low := n.le_toInt
  have high := n.toInt_lt
  have := (Json.Decoder.takes_int least Value.greatest low (by change n.toInt ≤ 2 ^ 63 - 1; omega) (by omega) (by omega)).map
      fun n => Value.integer (Int64.ofInt n)
  rwa [Int64.ofInt_toInt] at this

theorem two_levels {levels : Nat} {p : Prop} :
    0 < levels ∧ 0 < levels - 1 ∧ p ↔ 2 ≤ levels ∧ p :=
  ⟨fun ⟨_, h, hp⟩ => ⟨by omega, hp⟩, fun ⟨h, hp⟩ => ⟨by omega, by omega, hp⟩⟩

/-- Of a value that is no list, the brackets are its own and those of its components. -/
theorem takes_typed_iff {size levels : Nat} {k : Kind} {type : String} {ts : List Token} {v : Value}
    {good : Prop} (hk : Kind.parse? type = some k) (htokens : v.tokens = tagged type ts)
    (hsize : v.tokens.length ≤ size)
    (hc : 0 < levels → Takes (content (levels - 1)
      (Decoder.array size (levels - 1) fun _ => inside size (levels - 1)) k) ts v good)
    (iff : 0 < levels ∧ good ↔ v.levels ≤ levels ∧ v.isFinite = true) :
    Takes (decoder size levels) v.tokens v (v.levels ≤ levels ∧ v.isFinite = true) := by
  rw [htokens] at hsize ⊢
  exact (takes_typed hk hc hsize).congr iff

mutual

/-- A value is read exactly if its floats are finite and its brackets may be opened. -/
theorem takes_decoder : ∀ (v : Value) (size levels : Nat), v.tokens.length ≤ size →
    Takes (decoder size levels) v.tokens v (v.levels ≤ levels ∧ v.isFinite = true)
  | integer n, size, levels, h =>
    takes_typed_iff (k := .integer) rfl rfl h (fun _ => takes_int64 n)
      (by simp [Value.levels, isFinite]; omega)
  | float x, size, levels, h =>
    takes_typed_iff (k := .float) rfl rfl h (fun _ => (Json.Decoder.takes_float x).map Value.float)
      (by simp [Value.levels, isFinite]; omega)
  | string s, size, levels, h =>
    takes_typed_iff (k := .string) rfl rfl h
      (fun _ => (Json.Decoder.takes_string s).map Value.string)
      (by simp [Value.levels, isFinite]; omega)
  | key id, size, levels, h =>
    takes_typed_iff (k := .key) rfl rfl h
      (fun _ => (Json.Decoder.takes_parsed (Uuid.parse?_text id)).map Value.key)
      (by simp [Value.levels, isFinite]; omega)
  | vector x y z, size, levels, h =>
    takes_typed_iff (k := .vector) rfl rfl h
      (fun _ => (takes_floats [x, y, z]).checked (f := ofVector?) rfl)
      (two_levels.trans (by simp [Value.levels, isFinite, and_assoc]))
  | rotation x y z s, size, levels, h =>
    takes_typed_iff (k := .rotation) rfl rfl h
      (fun _ => (takes_floats [x, y, z, s]).checked (f := ofRotation?) rfl)
      (two_levels.trans (by simp [Value.levels, isFinite, and_assoc]))
  | list items, size, levels, h => by
    have size' : (Json.arrayTokens (items.map tokens)).length ≤ size := by
      rw [← itemTokens_eq]
      exact (Json.length_le_object (List.mem_cons_of_mem _ List.mem_cons_self)).trans h
    have array := Json.Decoder.takes_array (fun _ => inside size (levels - 1)) (levels - 1)
      (takes_inside items size (levels - 1) fun v hv =>
        (Json.length_le_array (List.mem_map_of_mem hv)).trans size')
      (fun a _ => (block_tokens a).lead)
      (by simpa using (Json.count_le_array (items.map tokens)).trans size')
    rw [← itemTokens_eq] at array
    refine takes_typed_iff (k := .list) rfl rfl h (fun _ => array.map Value.list)
      (two_levels.trans ?_)
    have : 2 + itemLevels items ≤ levels ↔ 2 ≤ levels ∧ itemLevels items ≤ levels - 2 := by omega
    simp only [Value.levels, isFinite, itemsFinite_iff, this, itemLevels_le, and_assoc,
      ← forall₂_and]
    refine and_congr_right fun h2 => forall₂_congr fun v _ => and_congr_left fun _ => ?_
    omega

theorem takes_inside : ∀ (vs : List Value) (size levels : Nat),
    (∀ v ∈ vs, v.tokens.length ≤ size) → ∀ v ∈ vs,
      Takes (inside size levels) v.tokens v (v.levels + 1 ≤ levels ∧ v.isFinite = true)
  | [], _, _, _, v, hv => nomatch hv
  | v :: vs, size, levels, h, u, hu => by
    rcases List.mem_cons.mp hu with e | hu
    · rw [e]
      cases levels with
      | zero => exact ⟨fun g => absurd g.1 (by omega), fun _ rest => ⟨.malformed, rfl⟩⟩
      | succ levels =>
        exact (takes_decoder v size levels (h v List.mem_cons_self)).congr
          (by rw [Nat.add_le_add_iff_right])
    · exact takes_inside vs size levels (fun v hv => h v (List.mem_cons_of_mem _ hv)) u hu

end

/-! ## What readers make -/

end Value

/-- A tree that a reader may have made with so many levels left. -/
inductive Json.Fits : Nat → Json → Prop where
  | null {n : Nat} : Fits n .null
  | bool {n : Nat} (b : Bool) : Fits n (.bool b)
  | whole {n : Nat} (k : Int) : Fits n (.whole k)
  | float {n : Nat} {x : Binary64} (h : x.isFinite = true) : Fits n (.float x)
  | text {n : Nat} (s : String) : Fits n (.text s)
  | array {n : Nat} {items : List Json} (h : ∀ j ∈ items, Fits n j) : Fits (n + 1) (.array items)
  | object {n : Nat} {members : List (String × Json)} (h : ∀ m ∈ members, Fits n m.2) :
      Fits (n + 1) (.object members)

theorem Json.Fits.mono {n : Nat} {j : Json} (h : Fits n j) {m : Nat} (hm : n ≤ m) : Fits m j := by
  induction h generalizing m with
  | null => exact .null
  | bool => exact .bool _
  | whole => exact .whole _
  | float h => exact .float h
  | text => exact .text _
  | array _ ih =>
    obtain ⟨m, rfl⟩ := Nat.exists_eq_succ_of_ne_zero (by omega : m ≠ 0)
    exact .array fun j hj => ih j hj (Nat.le_of_succ_le_succ hm)
  | object _ ih =>
    obtain ⟨m, rfl⟩ := Nat.exists_eq_succ_of_ne_zero (by omega : m ≠ 0)
    exact .object fun j hj => ih j hj (Nat.le_of_succ_le_succ hm)

theorem Json.Fits.items {n : Nat} {items : List Json} (h : Fits n (.array items)) :
    ∃ m, n = m + 1 ∧ ∀ j ∈ items, Fits m j := by
  cases h with
  | array h => exact ⟨_, rfl, h⟩

theorem Json.Fits.members {n : Nat} {members : List (String × Json)}
    (h : Fits n (.object members)) : ∃ m, n = m + 1 ∧ ∀ p ∈ members, Fits m p.2 := by
  cases h with
  | object h => exact ⟨_, rfl, h⟩

open Json.Decoder in
theorem Json.yields_atom (size : Nat) : Yields (anyValue size 0) (Fits 0) := by
  intro ts j rest e
  unfold anyValue at e
  split at e
  · cases e; exact .null
  · cases e; exact .bool _
  · cases e; exact .text _
  · split at e
    · cases e; exact .whole _
    · next h => cases e; exact .float (isFinite_of_ofLiteral? h)
    · cases e
  all_goals cases e

open Json.Decoder in
theorem Json.yields_anyValue (size levels : Nat) : Yields (anyValue size levels) (Fits levels) := by
  induction levels with
  | zero => exact yields_atom size
  | succ levels ih =>
    intro ts j rest e
    unfold anyValue at e
    split at e
    · exact (Yields.map (yields_items ih _ _ _ (List.forall_mem_nil _)) fun _ => .array) e
    · refine (Yields.map (P := fun taken => ∀ m ∈ taken, Fits levels m.2) (yields_members ?_ _ _
        (List.forall_mem_nil _)) fun taken ht => .object fun m hm => ht m (List.mem_reverse.mp hm)) e
      intro draft key reader hd known
      cases known
      exact ih.map fun j hj => List.forall_mem_cons.mpr ⟨hj, hd⟩
    · exact (yields_atom size e).mono (Nat.zero_le _)

namespace Value

open Json (Token Block Decoder)
open Json.Decoder (Takes Feeds Yields)

/-- A value that a reader may have made with so many levels left. -/
def Fits (n : Nat) (v : Value) : Prop := v.levels ≤ n ∧ v.isFinite = true

theorem isFinite_of_floatOfJson? {n : Nat} {j : Json} {x : Binary64} (hj : Json.Fits n j)
    (h : floatOfJson? j = some x) : x.isFinite = true := by
  unfold floatOfJson? at h
  split at h
  · exact Binary64.isFinite_of_ofDecimal h
  · cases h
    cases hj
    assumption
  · cases h

theorem isFinite_of_mapM {n : Nat} : ∀ {js : List Json} {xs : List Binary64},
    (∀ j ∈ js, Json.Fits n j) → js.mapM floatOfJson? = some xs → ∀ x ∈ xs, x.isFinite = true := by
  intro js
  induction js with
  | nil => intro xs _ h; cases h; exact List.forall_mem_nil _
  | cons j js ih =>
    intro xs hj h
    simp only [List.mapM_cons, Option.bind_eq_bind, Option.bind_eq_some_iff, Option.pure_def] at h
    obtain ⟨x, hx, xs', hxs, e⟩ := h
    cases e
    exact List.forall_mem_cons.mpr ⟨isFinite_of_floatOfJson? (hj j List.mem_cons_self) hx,
      ih (fun j h => hj j (List.mem_cons_of_mem _ h)) hxs⟩

theorem fits_vector {n : Nat} {xs : List Binary64} {v : Value} (hn : 2 ≤ n)
    (hx : ∀ x ∈ xs, x.isFinite = true) (h : ofVector? xs = some v) : Fits n v := by
  unfold ofVector? at h
  split at h
  · cases h
    refine ⟨hn, ?_⟩
    simpa [isFinite, and_assoc] using hx
  · cases h

theorem fits_rotation {n : Nat} {xs : List Binary64} {v : Value} (hn : 2 ≤ n)
    (hx : ∀ x ∈ xs, x.isFinite = true) (h : ofRotation? xs = some v) : Fits n v := by
  unfold ofRotation? at h
  split at h
  · cases h
    refine ⟨hn, ?_⟩
    simpa [isFinite, and_assoc] using hx
  · cases h

theorem fits_list {n : Nat} {vs : List Value} (h : ∀ v ∈ vs, Fits n v) :
    Fits (n + 2) (.list vs) := by
  refine ⟨?_, (itemsFinite_iff vs).mpr fun v hv => (h v hv).2⟩
  have := itemLevels_le.mpr fun v hv => (h v hv).1
  simp only [Value.levels]
  omega

mutual

/-- A content that was kept is one level below its value. -/
theorem fits_of_ofContent? : ∀ (k : Kind) (j : Json) {n : Nat} {v : Value}, Json.Fits n j →
    ofContent? k j = some v → Fits (n + 1) v
  | .integer, .whole i, n, v, _, h => by
    unfold ofContent? at h
    split at h <;> cases h
    exact ⟨Nat.succ_pos _, rfl⟩
  | .float, j, n, v, hj, h => by
    unfold ofContent? at h
    obtain ⟨x, hx, rfl⟩ := Option.map_eq_some_iff.mp h
    exact ⟨Nat.succ_pos _, isFinite_of_floatOfJson? hj hx⟩
  | .string, .text s, n, v, _, h => by
    cases h
    exact ⟨Nat.succ_pos _, rfl⟩
  | .key, .text s, n, v, _, h => by
    unfold ofContent? at h
    obtain ⟨id, -, rfl⟩ := Option.map_eq_some_iff.mp h
    exact ⟨Nat.succ_pos _, rfl⟩
  | .vector, .array js, n, v, hj, h => by
    obtain ⟨n, rfl, hjs⟩ := hj.items
    unfold ofContent? at h
    obtain ⟨xs, hxs, h⟩ := Option.bind_eq_some_iff.mp h
    exact fits_vector (by omega) (isFinite_of_mapM hjs hxs) h
  | .rotation, .array js, n, v, hj, h => by
    obtain ⟨n, rfl, hjs⟩ := hj.items
    unfold ofContent? at h
    obtain ⟨xs, hxs, h⟩ := Option.bind_eq_some_iff.mp h
    exact fits_rotation (by omega) (isFinite_of_mapM hjs hxs) h
  | .list, .array js, n, v, hj, h => by
    obtain ⟨n, rfl, hjs⟩ := hj.items
    unfold ofContent? at h
    obtain ⟨vs, hvs, rfl⟩ := Option.map_eq_some_iff.mp h
    exact fits_list (fits_of_ofContents? js hjs hvs)

theorem fits_of_ofContents? : ∀ (js : List Json) {n : Nat} {vs : List Value},
    (∀ j ∈ js, Json.Fits n j) → ofContents? js = some vs → ∀ v ∈ vs, Fits n v
  | [], n, vs, _, h => by
    cases h
    exact List.forall_mem_nil _
  | j :: js, n, vs, hj, h => by
    unfold ofContents? at h
    split at h
    · cases h
    · next v hv =>
      obtain ⟨vs', hvs, rfl⟩ := Option.map_eq_some_iff.mp h
      exact List.forall_mem_cons.mpr ⟨fits_of_ofJson? j (hj j List.mem_cons_self) hv,
        fits_of_ofContents? js (fun j h => hj j (List.mem_cons_of_mem _ h)) hvs⟩

theorem fits_of_ofJson? : ∀ (j : Json) {n : Nat} {v : Value}, Json.Fits n j →
    ofJson? j = some v → Fits n v
  | .array [kind, content], n, v, hj, h => by
    obtain ⟨n, rfl, hjs⟩ := hj.items
    unfold ofJson? at h
    split at h
    · exact fits_of_ofContent? _ content (hjs content (by simp)) h
    · cases h
  | .object members, n, v, hj, h => by
    obtain ⟨n, rfl, hms⟩ := hj.members
    unfold ofJson? at h
    split at h
    · exact fits_of_ofMember? _ members hms h
    · cases h

theorem fits_of_ofMember? : ∀ (k : Kind) (ms : List (String × Json)) {n : Nat} {v : Value},
    (∀ m ∈ ms, Json.Fits n m.2) → ofMember? k ms = some v → Fits (n + 1) v
  | k, [], n, v, _, h => by cases h
  | k, (name, content) :: members, n, v, hms, h => by
    unfold ofMember? at h
    split at h
    · split at h
      · cases h
      · exact fits_of_ofContent? k content (hms _ List.mem_cons_self) h
    · exact fits_of_ofMember? k members (fun m hm => hms m (List.mem_cons_of_mem _ hm)) h

end

/-- What a draft may hold, so many levels below its value. -/
def Draft.Fits (n : Nat) : Draft → Prop
  | .start | .kind _ => True
  | .content j => Json.Fits n j
  | .done v => v.Fits (n + 1)

theorem yields_content {n : Nat} {items : Decoder (List Value)} (k : Kind)
    (h : Yields items fun vs => Fits (n + 1) (.list vs)) :
    Yields (content n items k) (Fits (n + 1)) := by
  cases k with
  | integer => exact Yields.trivial.map fun _ _ => ⟨Nat.succ_pos _, rfl⟩
  | float => exact Json.Decoder.yields_float.map fun _ hx => ⟨Nat.succ_pos _, hx⟩
  | string => exact Yields.trivial.map fun _ _ => ⟨Nat.succ_pos _, rfl⟩
  | key => exact Yields.trivial.map fun _ _ => ⟨Nat.succ_pos _, rfl⟩
  | vector =>
    exact (Json.Decoder.yields_tuple Json.Decoder.yields_float).checked
      fun _ _ hx h => fits_vector (Nat.succ_le_succ hx.1) hx.2 h
  | rotation =>
    exact (Json.Decoder.yields_tuple Json.Decoder.yields_float).checked
      fun _ _ hx h => fits_rotation (Nat.succ_le_succ hx.1) hx.2 h
  | list => exact h.map fun _ h => h

/-- Whichever of type and content comes first. -/
theorem keeps_field {size n : Nat} {items : Nat → Decoder (List Value)}
    (h : Yields (items n) fun vs => Fits (n + 1) (.list vs)) :
    (field size items n).Keeps (Draft.Fits n) := by
  intro draft key reader hd known
  unfold field at known
  split at known
  · split at known <;> cases known
    · exact Yields.trivial.map fun _ _ => True.intro
    · refine Yields.trivial.checked fun k d _ hk => ?_
      obtain ⟨v, hv, rfl⟩ := Option.map_eq_some_iff.mp hk
      exact fits_of_ofContent? k _ hd hv
  · split at known <;> cases known
    · exact (Json.yields_anyValue size n).map fun _ hj => hj
    · exact (yields_content _ h).map fun _ hv => hv
  · cases known

/-- A reader makes only values that it could read back. -/
theorem yields_decoder (size levels : Nat) : Yields (decoder size levels) (Fits levels) := by
  induction levels using Nat.strongRecOn with
  | _ levels ih =>
    cases levels with
    | zero =>
      refine Yields.mono (Json.Decoder.yields_record (P := fun _ => True) (I := fun _ => True)
        (fun h => absurd h (Nat.lt_irrefl 0)) trivial fun _ _ _ _ => trivial) fun _ h => ?_
      exact absurd h.1 (Nat.lt_irrefl 0)
    | succ n =>
      have items : Yields (Decoder.array size n fun _ => inside size n)
          fun vs => Fits (n + 1) (.list vs) := by
        cases n with
        | zero =>
          exact (Json.Decoder.yields_array (P := fun _ => True) Yields.trivial).mono
            fun _ h => absurd h.1 (Nat.lt_irrefl 0)
        | succ n =>
          exact (Json.Decoder.yields_array (ih n (by omega))).mono fun _ h => fits_list h.2
      rw [decoder_succ]
      refine (Json.Decoder.yields_record (fun _ => keeps_field items) (I := Draft.Fits n)
        (show Draft.Fits n .start from True.intro) fun draft v hd hv => ?_).mono fun v h => h.2
      unfold Draft.finish? at hv
      split at hv <;> cases hv
      exact hd

end Value

end ScriptHost
