import ScriptHost.Text.Utf8

/-!
# Identifiers

An identifier is a 128-bit number. It is written as thirty-two lower-case
hexadecimal digits with hyphens (`8-4-4-4-12`); read also without hyphens, in
braces or behind `urn:uuid:`, in either case.
-/

namespace ScriptHost

structure Uuid where
  bits : BitVec 128
  deriving DecidableEq, Repr, Inhabited

namespace Uuid

def nil : Uuid := ⟨0⟩

def ofNat (n : Nat) : Uuid := ⟨BitVec.ofNat 128 n⟩

def toNat (id : Uuid) : Nat := id.bits.toNat

def hexDigits (count n : Nat) : List Char :=
  (List.range count).map fun i => Text.hexDigit (n / Nat.pow 16 (count - 1 - i) % 16)

def toChars (id : Uuid) : List Char :=
  let digits := hexDigits 32 id.toNat
  digits.take 8 ++ '-' :: (digits.drop 8).take 4 ++ '-' :: (digits.drop 12).take 4 ++
    '-' :: (digits.drop 16).take 4 ++ '-' :: digits.drop 20

def text (id : Uuid) : String := String.ofList id.toChars

def ofHex? (digits : Bytes) : Option Uuid :=
  (digits.foldlM (fun n b => (Text.hexValue? b).map (n * 16 + ·)) 0).map ofNat

/-- Thirty-six bytes with hyphens in the four places. -/
def ofHyphenated? (bytes : Bytes) : Option Uuid :=
  let groups := [bytes.take 8, (bytes.drop 9).take 4, (bytes.drop 14).take 4,
    (bytes.drop 19).take 4, bytes.drop 24]
  if [8, 13, 18, 23].all (fun i => bytes[i]? == some 45) then ofHex? groups.flatten else none

/-- `urn:uuid:` in either case. -/
def isUrn (bytes : Bytes) : Bool :=
  bytes.map (fun b => if 65 ≤ b ∧ b ≤ 90 then b + 32 else b) ==
    [117, 114, 110, 58, 117, 117, 105, 100, 58]

def ofBytes? (bytes : Bytes) : Option Uuid :=
  match bytes.length with
  | 32 => ofHex? bytes
  | 36 => ofHyphenated? bytes
  | 38 =>
    if bytes.head? == some 123 && bytes.getLast? == some 125 then
      ofHyphenated? ((bytes.drop 1).take 36)
    else none
  | 45 => if isUrn (bytes.take 9) then ofHyphenated? (bytes.drop 9) else none
  | _ => none

def parse? (s : String) : Option Uuid := ofBytes? (Text.toBytes s)

def le (a b : Uuid) : Bool := a.toNat ≤ b.toNat

end Uuid

end ScriptHost
