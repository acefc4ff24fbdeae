import ScriptHost.Proofs.Text.Digits
import ScriptHost.Proofs.Text.Utf8
import ScriptHost.Model.Uuid

/-!
# Identifiers read back

The canonical text of an identifier is read as the identifier.
-/

namespace ScriptHost.Uuid

open Text (asciiBytes toBytes)

theorem hexDigit_spec : ∀ d < 16, (Text.hexDigit d).toNat < 128 ∧
    Text.hexValue? (UInt8.ofNat (Text.hexDigit d).toNat) = some d := by decide

theorem hexDigits_succ (count n : Nat) :
    hexDigits (count + 1) n = hexDigits count (n / 16) ++ [Text.hexDigit (n % 16)] := by
  unfold hexDigits
  rw [List.range_succ, List.map_append, List.map_singleton]
  congr 1
  · refine List.map_congr_left fun i hi => ?_
    have := List.mem_range.mp hi
    simp only [Nat.pow_eq]
    rw [Nat.div_div_eq_div_mul, ← Nat.pow_succ', show count + 1 - 1 - i = count - 1 - i + 1 by omega]
  · simp

theorem ascii_hexDigits (count n : Nat) : ∀ c ∈ hexDigits count n, c.toNat < 128 := by
  intro c hc
  obtain ⟨i, -, rfl⟩ := List.mem_map.mp hc
  exact (hexDigit_spec _ (Nat.mod_lt _ (by decide))).1

/-- Hexadecimal digits spell the number they were taken from. -/
theorem foldlM_hexDigits (count n : Nat) :
    (asciiBytes (hexDigits count n)).foldlM (fun n b => (Text.hexValue? b).map (n * 16 + ·)) 0 =
      some (n % 16 ^ count) := by
  induction count generalizing n with
  | zero => simp [hexDigits, asciiBytes, Nat.mod_one]
  | succ count ih =>
    rw [hexDigits_succ, Text.asciiBytes_append, List.foldlM_append, ih]
    simp only [asciiBytes, List.map_cons, List.map_nil, List.foldlM_cons, List.foldlM_nil,
      (hexDigit_spec _ (Nat.mod_lt n (by decide : 16 > 0))).2]
    have : n / 16 % 16 ^ count * 16 + n % 16 = n % 16 ^ (count + 1) := by
      rw [Nat.pow_succ', Nat.mod_mul, Nat.mul_comm, Nat.add_comm]
    simp [this]

theorem mem_toChars {id : Uuid} {c : Char} (h : c ∈ id.toChars) :
    c = '-' ∨ c ∈ hexDigits 32 id.toNat := by
  have part : ∀ a b, c ∈ ((hexDigits 32 id.toNat).drop a).take b → c ∈ hexDigits 32 id.toNat :=
    fun a b h => List.mem_of_mem_drop (List.mem_of_mem_take h)
  simp only [toChars, List.mem_append, List.mem_cons] at h
  rcases h with (((h | h | h) | h | h) | h | h) | h | h
  · exact .inr (List.mem_of_mem_take h)
  · exact .inl h
  · exact .inr (part _ _ h)
  · exact .inl h
  · exact .inr (part _ _ h)
  · exact .inl h
  · exact .inr (part _ _ h)
  · exact .inl h
  · exact .inr (List.mem_of_mem_drop h)

theorem toBytes_text (id : Uuid) : toBytes id.text = asciiBytes id.toChars := by
  refine Text.toBytes_ascii fun c hc => ?_
  rcases mem_toChars hc with rfl | hc
  · decide
  · exact ascii_hexDigits 32 id.toNat c hc

theorem parse?_text (id : Uuid) : parse? id.text = some id := by
  have groups : ofBytes? (asciiBytes id.toChars) = ofHex? (asciiBytes (hexDigits 32 id.toNat)) := rfl
  have bits : id.toNat % 16 ^ 32 = id.toNat := Nat.mod_eq_of_lt id.bits.isLt
  rw [parse?, toBytes_text, groups, ofHex?, foldlM_hexDigits, bits]
  simp [ofNat, toNat]

end ScriptHost.Uuid
