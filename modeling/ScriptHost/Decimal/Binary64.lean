import ScriptHost.Decimal.Basic

/-!
# Doubles as words

A double is its 64 bits: a sign, eleven bits of exponent, fifty-two of
fraction. The engine only stores, prints and reads doubles, so no arithmetic
is defined; a finite one is `significand * 2 ^ power` exactly, and
`ofRatio` is the double nearest to a quotient (ties to even).
-/

namespace ScriptHost

/-- An IEEE 754 double, as its word. -/
structure Binary64 where
  bits : UInt64
  deriving DecidableEq, Repr, Inhabited

namespace Binary64

def negative (x : Binary64) : Bool := x.bits >>> 63 != 0

def exponentField (x : Binary64) : Nat := ((x.bits >>> 52) &&& 0x7ff).toNat

def fractionField (x : Binary64) : Nat := (x.bits &&& 0xfffffffffffff).toNat

def isFinite (x : Binary64) : Bool := x.exponentField != 2047

def isNaN (x : Binary64) : Bool := x.exponentField == 2047 && x.fractionField != 0

def significand (x : Binary64) : Nat :=
  if x.exponentField = 0 then x.fractionField else Nat.pow 2 52 + x.fractionField

def power (x : Binary64) : Int :=
  if x.exponentField = 0 then -1074 else (x.exponentField : Int) - 1075

/-- A finite double without its sign, as a quotient. -/
def ratio (x : Binary64) : Nat × Nat :=
  match x.power with
  | .ofNat p => (x.significand * Nat.pow 2 p, 1)
  | .negSucc p => (x.significand, Nat.pow 2 (p + 1))

def ofFields (negative : Bool) (exponent fraction : Nat) : Binary64 :=
  ⟨(if negative then (0x8000000000000000 : UInt64) else 0) ||| (UInt64.ofNat exponent <<< 52)
    ||| UInt64.ofNat fraction⟩

def zero (negative : Bool) : Binary64 := ofFields negative 0 0

def infinity (negative : Bool) : Binary64 := ofFields negative 2047 0

def nan : Binary64 := ofFields false 2047 (Nat.pow 2 51)

instance : OfNat Binary64 0 := ⟨zero false⟩

/-- `num / den` in units of `2 ^ power`. -/
def scaled (num den : Nat) : Int → Nat × Nat
  | .ofNat p => (num, den * Nat.pow 2 p)
  | .negSucc p => (num * Nat.pow 2 (p + 1), den)

/-- The double nearest to `num / den`, or `none` if that is beyond the largest finite one. -/
def ofRatio (negative : Bool) (num den : Nat) : Option Binary64 :=
  if num = 0 then some (zero negative)
  else
    let guess : Int := max (-1074) ((num.log2 : Int) - (den.log2 : Int) - 53)
    let (n, d) := scaled num den guess
    let power := if n / d < Nat.pow 2 53 then guess else guess + 1
    let (n, d) := scaled num den power
    let m := Decimal.roundHalfEven n d
    let (m, power) := if m = Nat.pow 2 53 then (Nat.pow 2 52, power + 1) else (m, power)
    if m < Nat.pow 2 52 then some (ofFields negative 0 m)
    else if power + 1075 < 2047 then
      some (ofFields negative (power + 1075).toNat (m - Nat.pow 2 52))
    else none

end Binary64

end ScriptHost
