import ScriptHost.Decimal.Binary64

/-!
# Reading decimals

`Binary64.ofDecimal` is the double nearest to `mantissa * 10 ^ exponent`.
An exponent far outside the range of doubles is settled by the number of
digits alone, so its power of ten is never built.
-/

namespace ScriptHost.Binary64

/-- The double nearest to `mantissa * 10 ^ exponent`, or `none` if it overflows. -/
def ofDecimal (negative : Bool) (mantissa : Nat) (exponent : Int) : Option Binary64 :=
  if mantissa = 0 then some (zero negative)
  else
    let magnitude : Int := (mantissa.log2 : Int) * 3 / 10 + exponent
    if magnitude < -400 then some (zero negative)
    else if 400 < magnitude then none
    else match exponent with
      | .ofNat e => ofRatio negative (mantissa * Nat.pow 10 e) 1
      | .negSucc e => ofRatio negative mantissa (Nat.pow 10 (e + 1))

end ScriptHost.Binary64
