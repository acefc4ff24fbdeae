import ScriptHost.Decimal.Binary64

/-!
# Shortest digits

The shortest decimal that reads back as a given double. For one digit, two
digits and so on, the two neighbours of the value on that decimal grid are
tested against the interval of reals that round to it; the first grid with a
hit wins, of two hits the nearer one, on a tie the even one. Seventeen digits
always suffice.
-/

namespace ScriptHost.Binary64

/-- The reals that round to a positive double, as multiples of a quarter of its last place. -/
structure Catchment where
  low : Nat
  value : Nat
  high : Nat
  closed : Bool

/-- Below a power of two the neighbour is nearer than above it. -/
def catchment (x : Binary64) : Catchment :=
  let m := x.significand
  let low := if x.fractionField = 0 ∧ 1 < x.exponentField then 4 * m - 1 else 4 * m - 2
  ⟨low, 4 * m, 4 * m + 2, m % 2 == 0⟩

def atLeastPowerOfTen (num den : Nat) : Int → Bool
  | .ofNat e => Nat.pow 10 e * den ≤ num
  | .negSucc e => den ≤ num * Nat.pow 10 (e + 1)

/-- The exponent of the leading digit of `num / den`, from an estimate that is off by at most
two. -/
def leadingExponent (num den : Nat) : Int :=
  let guess : Int := ((num.log2 : Int) - (den.log2 : Int)) * 30103 / 100000 - 1
  let up (e : Int) : Int := if atLeastPowerOfTen num den (e + 1) then e + 1 else e
  up (up (up guess))

/-- `num / den` in units of `10 ^ e`, as a quotient. -/
def inUnits (num den : Nat) : Int → Nat × Nat
  | .ofNat e => (num, den * Nat.pow 10 e)
  | .negSucc e => (num * Nat.pow 10 (e + 1), den)

/-- Whether `k` units lie in the interval, all bounds being quotients over `den`. -/
def Catchment.holds (c : Catchment) (scale den k : Nat) : Bool :=
  let here := k * den
  if c.closed then c.low * scale ≤ here && here ≤ c.high * scale
  else c.low * scale < here && here < c.high * scale

/-- Of the grid points around the value, the one to print if any reads back. -/
def Catchment.pick (c : Catchment) (scale den : Nat) : Option Nat :=
  let value := c.value * scale
  let low := value / den
  let high := low + 1
  match c.holds scale den low, c.holds scale den high with
  | false, false => none
  | true, false => some low
  | false, true => some high
  | true, true => some (Decimal.roundHalfEven value den)

def quarter (x : Binary64) : Nat × Nat :=
  match x.power - 2 with
  | .ofNat p => (Nat.pow 2 p, 1)
  | .negSucc p => (1, Nat.pow 2 (p + 1))

/-- The first grid with a hit, from `count` digits on. -/
def searchGrids (c : Catchment) (num den : Nat) (lead : Int) : Nat → Nat → Decimal
  | 0, count =>
    let e := lead - count + 1
    let (n, d) := inUnits num den e
    ⟨Decimal.roundHalfEven (c.value * n) d, e⟩
  | fuel + 1, count =>
    let e := lead - count + 1
    let (n, d) := inUnits num den e
    match c.pick n d with
    | some k => ⟨k, e⟩
    | none => searchGrids c num den lead fuel (count + 1)

/-- The shortest decimal that reads back as the finite non-zero `x`, without its sign. -/
def shortest (x : Binary64) : Decimal :=
  let c := x.catchment
  let (num, den) := x.quarter
  Decimal.trim 20 (searchGrids c num den (leadingExponent (c.value * num) den) 16 1)

end ScriptHost.Binary64
