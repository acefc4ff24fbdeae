/-!
# Numerals of words

A whole number below `2 ^ 64`, written with ASCII digits after an optional
plus sign. Reading stops at the first digit that makes the number too large
and at the first character that is no digit, whichever comes first.
-/

namespace ScriptHost.Text

inductive NumeralError where
  | empty
  | notDigit
  | tooLarge
  deriving DecidableEq, Repr, Inhabited

namespace NumeralError

def message : NumeralError → String
  | empty => "cannot parse integer from empty string"
  | notDigit => "invalid digit found in string"
  | tooLarge => "number too large to fit in target type"

end NumeralError

def digitValue (c : Char) : Nat := c.toNat - 48

def readDigits (n : Nat) : List Char → Except NumeralError Nat
  | [] => .ok n
  | c :: cs =>
    if c.isDigit then
      let n := n * 10 + digitValue c
      if n < UInt64.size then readDigits n cs else .error .tooLarge
    else .error .notDigit

def readWord : List Char → Except NumeralError UInt64
  | [] => .error .empty
  | ['+'] => .error .notDigit
  | '+' :: cs => (readDigits 0 cs).map UInt64.ofNat
  | cs => (readDigits 0 cs).map UInt64.ofNat

end ScriptHost.Text
