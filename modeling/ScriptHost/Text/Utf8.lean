/-!
# Texts as bytes

A text is stored as its UTF-8 bytes. Bytes that are not well-formed UTF-8
(a surrogate, an overlong form, a truncated sequence) are no text.
-/

namespace ScriptHost

abbrev Bytes := List UInt8

namespace Text

def toBytes (s : String) : Bytes := s.toUTF8.data.toList

/-- The text that these bytes spell, if they are well-formed UTF-8. -/
def ofBytes? (bytes : Bytes) : Option String := String.fromUTF8? ⟨bytes.toArray⟩

theorem ofBytes?_toBytes (s : String) : ofBytes? (toBytes s) = some s := by
  have h : (⟨s.toUTF8.data.toList.toArray⟩ : ByteArray) = s.toUTF8 := rfl
  have hv : s.toUTF8.IsValidUTF8 := s.isValidUTF8
  simp only [ofBytes?, toBytes, h, String.fromUTF8?]
  rw [dif_pos (by simpa using hv)]
  rfl

def ofAscii (bytes : Bytes) : String := String.ofList (bytes.map fun b => Char.ofNat b.toNat)

def hexDigit (n : Nat) : Char :=
  if n < 10 then Char.ofNat (n + 48) else Char.ofNat (n + 87)

/-- Two lower-case hexadecimal digits a byte. -/
def hex (bytes : Bytes) : String :=
  bytes.foldl (fun s b => (s.push (hexDigit (b.toNat / 16))).push (hexDigit (b.toNat % 16))) ""

def hexValue? (b : UInt8) : Option Nat :=
  if 48 ≤ b ∧ b ≤ 57 then some (b.toNat - 48)
  else if 97 ≤ b ∧ b ≤ 102 then some (b.toNat - 87)
  else if 65 ≤ b ∧ b ≤ 70 then some (b.toNat - 55)
  else none

end Text

end ScriptHost
