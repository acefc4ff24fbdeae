import ScriptHost.Decimal.Binary64

/-!
# Fixed places

A finite double is printed with a given number of places, rounded from its
exact value with ties to even; the sign of a negative zero is kept.
-/

namespace ScriptHost.Binary64

/-- `units * 10 ^ -places` in positional notation. -/
def positional (places units : Nat) : String :=
  if places = 0 then toString units
  else
    toString (units / Nat.pow 10 places) ++ "." ++
      Decimal.padded places (units % Nat.pow 10 places)

def fixed (places : Nat) (x : Binary64) : String :=
  if x.isNaN then "NaN"
  else
    let sign := if x.negative then "-" else ""
    if x.isFinite then
      let (num, den) := x.ratio
      sign ++ positional places (Decimal.roundHalfEven (num * Nat.pow 10 places) den)
    else sign ++ "inf"

end ScriptHost.Binary64
