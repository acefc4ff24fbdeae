import ScriptHost.Text.Utf8

/-!
# Bytes of texts

The bytes of a text are those of its characters one after another: one byte
for an ASCII character, only bytes from 128 on for any other.
-/

namespace ScriptHost.Text

theorem toBytes_eq (s : String) : toBytes s = s.toList.flatMap String.utf8EncodeChar := by
  have h : s.toUTF8 = s.toList.utf8Encode := String.utf8Encode_toList.symm
  unfold toBytes
  rw [h, List.utf8Encode]
  simp

@[simp] theorem toBytes_append (s t : String) : toBytes (s ++ t) = toBytes s ++ toBytes t := by
  simp [toBytes_eq, String.toList_append]

@[simp] theorem toBytes_push (s : String) (c : Char) :
    toBytes (s.push c) = toBytes s ++ String.utf8EncodeChar c := by
  simp [toBytes_eq, String.toList_push]

theorem utf8EncodeChar_ascii {c : Char} (h : c.toNat < 128) :
    String.utf8EncodeChar c = [UInt8.ofNat c.toNat] := by
  unfold String.utf8EncodeChar
  have : c.val.toNat ≤ 127 := by change c.toNat ≤ 127; omega
  simp only [this, if_true]
  rfl

theorem le_of_mem_utf8EncodeChar {c : Char} (h : 128 ≤ c.toNat) {b : UInt8}
    (hb : b ∈ String.utf8EncodeChar c) : 128 ≤ b.toNat := by
  have hc : c.val.toNat ≤ 0x10ffff := by
    have := c.valid
    simp only [UInt32.isValidChar, Nat.isValidChar] at this
    omega
  have high : ¬ c.val.toNat ≤ 127 := by change ¬ c.toNat ≤ 127; omega
  unfold String.utf8EncodeChar at hb
  simp only [high, if_false] at hb
  split at hb
  · simp only [List.mem_cons, List.not_mem_nil, or_false] at hb
    rcases hb with rfl | rfl <;> rw [UInt8.toNat_ofNat'] <;> omega
  · split at hb <;> simp only [List.mem_cons, List.not_mem_nil, or_false] at hb
    · rcases hb with rfl | rfl | rfl <;> rw [UInt8.toNat_ofNat'] <;> omega
    · rcases hb with rfl | rfl | rfl | rfl <;> rw [UInt8.toNat_ofNat'] <;> omega

/-- The bytes of ASCII characters. -/
def asciiBytes (cs : List Char) : Bytes := cs.map fun c => UInt8.ofNat c.toNat

@[simp] theorem asciiBytes_append (a b : List Char) :
    asciiBytes (a ++ b) = asciiBytes a ++ asciiBytes b := List.map_append

/-- An ASCII text has one byte a character. -/
theorem toBytes_ascii {cs : List Char} (h : ∀ c ∈ cs, c.toNat < 128) :
    toBytes (String.ofList cs) = asciiBytes cs := by
  rw [toBytes_eq, String.toList_ofList]
  induction cs with
  | nil => rfl
  | cons c cs ih =>
    rw [List.flatMap_cons, utf8EncodeChar_ascii (h c List.mem_cons_self),
      ih fun c hc => h c (List.mem_cons_of_mem _ hc)]
    rfl

/-- Reading ASCII bytes back. -/
theorem ofAscii_asciiBytes {cs : List Char} (h : ∀ c ∈ cs, c.toNat < 128) :
    ofAscii (asciiBytes cs) = String.ofList cs := by
  unfold ofAscii asciiBytes
  rw [List.map_map]
  congr 1
  refine (List.map_congr_left fun c hc => ?_).trans (List.map_id cs)
  have := h c hc
  simp only [Function.comp_apply, UInt8.toNat_ofNat', id]
  rw [Nat.mod_eq_of_lt (by omega)]
  exact Char.ofNat_toNat c

end ScriptHost.Text
