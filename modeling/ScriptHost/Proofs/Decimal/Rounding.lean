import Mathlib.Algebra.Order.Field.Power
import Mathlib.Algebra.Order.Floor.Semifield
import Mathlib.Data.Rat.Floor
import Mathlib.Tactic.FieldSimp
import Mathlib.Tactic.Linarith
import Mathlib.Tactic.Positivity
import Mathlib.Tactic.Ring
import Mathlib.Tactic.NormNum
import ScriptHost.Decimal.Reading
import ScriptHost.Decimal.Shortest

/-!
# Correct rounding

A quotient is read at the power of two its size asks for (`Scale`) and rounded
there. What lies in the catchment of a double, the reals between the midpoints
to its neighbours, comes out as that double (`ofRatio_of_catches`); a result
is never an infinity.
-/

namespace ScriptHost

namespace Decimal

theorem roundHalfEven_eq_or (n d : Nat) :
    roundHalfEven n d = n / d ∨ roundHalfEven n d = n / d + 1 := by
  unfold roundHalfEven
  simp only
  split
  · exact .inl rfl
  · split <;> omega

/-- The integer that a quotient is nearest to; a tie is settled by its evenness. -/
theorem roundHalfEven_eq {n d k : Nat} (hd : 0 < d) (low : 2 * (k * d) ≤ 2 * n + d)
    (high : 2 * n ≤ 2 * (k * d) + d)
    (tie : 2 * (k * d) = 2 * n + d ∨ 2 * n = 2 * (k * d) + d → k % 2 = 0) :
    roundHalfEven n d = k := by
  have hm := Nat.div_add_mod n d
  have hlt := Nat.mod_lt n hd
  rw [Nat.mul_comm] at hm
  -- the quotient is `k`, or `k - 1` when the remainder is at least one half
  have hq : n / d = k ∨ n / d + 1 = k := by
    have h1 : n / d < k + 1 := by
      rw [Nat.div_lt_iff_lt_mul hd, Nat.add_mul]; omega
    have h2 : k < n / d + 2 := by
      by_contra h
      have : (n / d + 2) * d ≤ k * d := Nat.mul_le_mul_right _ (by omega)
      rw [Nat.add_mul] at this
      omega
    omega
  unfold roundHalfEven
  simp only
  rcases hq with hq | hq
  · rw [hq] at hm ⊢
    split
    · rfl
    · split
      · omega
      · have := tie (by omega); omega
  · have hk : k * d = n / d * d + d := by rw [← hq, Nat.add_mul, Nat.one_mul]
    split
    · omega
    · split
      · omega
      · have := tie (by omega); omega


theorem roundHalfEven_of_ratio {n d k : Nat} (hd : 0 < d) (low : (k : ℚ) - 1 / 2 ≤ n / d)
    (high : (n : ℚ) / d ≤ k + 1 / 2)
    (tie : (n : ℚ) / d = k - 1 / 2 ∨ (n : ℚ) / d = k + 1 / 2 → k % 2 = 0) :
    roundHalfEven n d = k := by
  have hd' : (0 : ℚ) < d := by exact_mod_cast hd
  rw [le_div_iff₀ hd'] at low
  rw [div_le_iff₀ hd'] at high
  rw [div_eq_iff hd'.ne', div_eq_iff hd'.ne'] at tie
  refine roundHalfEven_eq hd ?_ ?_ fun h => tie ?_
  · have : (2 * (k * d) : ℚ) ≤ 2 * n + d := by linarith
    exact_mod_cast this
  · have : (2 * n : ℚ) ≤ 2 * (k * d) + d := by linarith
    exact_mod_cast this
  · rcases h with h | h
    · left
      have : (2 * (k * d) : ℚ) = 2 * n + d := by exact_mod_cast h
      linarith
    · right
      have : (2 * n : ℚ) = 2 * (k * d) + d := by exact_mod_cast h
      linarith

end Decimal

namespace Binary64

theorem exponentField_eq (x : Binary64) : x.exponentField = x.bits.toNat / 2 ^ 52 % 2 ^ 11 := by
  unfold exponentField
  rw [UInt64.toNat_and, UInt64.toNat_shiftRight]
  rw [show (0x7ff : UInt64).toNat = 2 ^ 11 - 1 from rfl, Nat.and_two_pow_sub_one_eq_mod,
    Nat.shiftRight_eq_div_pow]
  rfl

theorem fractionField_eq (x : Binary64) : x.fractionField = x.bits.toNat % 2 ^ 52 := by
  unfold fractionField
  rw [UInt64.toNat_and, show (0xfffffffffffff : UInt64).toNat = 2 ^ 52 - 1 from rfl,
    Nat.and_two_pow_sub_one_eq_mod]

theorem negative_eq (x : Binary64) : x.negative = decide (2 ^ 63 ≤ x.bits.toNat) := by
  unfold negative
  have hx := x.bits.toNat_lt
  have shift : (x.bits >>> 63).toNat = x.bits.toNat / 2 ^ 63 := by
    rw [UInt64.toNat_shiftRight, Nat.shiftRight_eq_div_pow]; rfl
  rw [Bool.eq_iff_iff, bne_iff_ne, decide_eq_true_iff, ne_eq, ← UInt64.toNat_inj, shift]
  rw [show (0 : UInt64).toNat = 0 from rfl]
  omega

theorem toNat_ofFields {negative : Bool} {e f : Nat} (he : e < 2 ^ 11) (hf : f < 2 ^ 52) :
    (ofFields negative e f).bits.toNat = (if negative then 2 ^ 63 else 0) + e * 2 ^ 52 + f := by
  have hshift : (UInt64.ofNat e <<< 52).toNat = e * 2 ^ 52 := by
    rw [UInt64.toNat_shiftLeft, UInt64.toNat_ofNat', show (52 : UInt64).toNat % 64 = 52 from rfl]
    rw [Nat.mod_eq_of_lt (by omega : e < 2 ^ 64), Nat.shiftLeft_eq]
    exact Nat.mod_eq_of_lt (by omega)
  have hfrac : (UInt64.ofNat f).toNat = f := by
    rw [UInt64.toNat_ofNat']; exact Nat.mod_eq_of_lt (by omega)
  have hlow : e * 2 ^ 52 ||| f = e * 2 ^ 52 + f := by
    rw [Nat.mul_comm, ← Nat.two_pow_add_eq_or_of_lt hf]
  unfold ofFields
  rw [UInt64.toNat_or, UInt64.toNat_or, hshift, hfrac, Nat.or_assoc, hlow]
  cases negative with
  | false => simp
  | true =>
    rw [if_pos rfl, if_pos rfl, show (0x8000000000000000 : UInt64).toNat = 2 ^ 63 * 1 from rfl,
      ← Nat.two_pow_add_eq_or_of_lt (by omega)]
    omega

theorem ofFields_fields (x : Binary64) :
    ofFields x.negative x.exponentField x.fractionField = x := by
  have hx := x.bits.toNat_lt
  have key : (ofFields x.negative x.exponentField x.fractionField).bits = x.bits := by
    rw [← UInt64.toNat_inj, exponentField_eq, fractionField_eq, negative_eq,
      toNat_ofFields (Nat.mod_lt _ (by decide)) (Nat.mod_lt _ (by decide))]
    simp only [decide_eq_true_eq]
    split <;> omega
  cases x
  exact congrArg Binary64.mk key


theorem scaled_pos {num den : Nat} (h : 0 < den) (p : Int) : 0 < (scaled num den p).2 := by
  cases p with
  | ofNat p => exact Nat.mul_pos h (Nat.two_pow_pos p)
  | negSucc p => exact h

theorem scaled_ratio (num den : Nat) (p : Int) :
    ((scaled num den p).1 : ℚ) / (scaled num den p).2 = (num : ℚ) / den / 2 ^ p := by
  cases p with
  | ofNat p =>
    change (num : ℚ) / ((den * 2 ^ p : ℕ) : ℚ) = _
    rw [Int.ofNat_eq_natCast, zpow_natCast, div_div]
    push_cast
    rfl
  | negSucc p =>
    change ((num * 2 ^ (p + 1) : ℕ) : ℚ) / den = _
    rw [zpow_negSucc, div_inv_eq_mul]
    push_cast
    ring

/-- The power of two at which `q` is rounded. -/
structure Scale (q : ℚ) (p : Int) : Prop where
  least : -1074 ≤ p
  high : q < 2 ^ (p + 53)
  low : p = -1074 ∨ 2 ^ (p + 52) ≤ q

theorem Scale.le {q : ℚ} {p p' : Int} (h : Scale q p) (h' : Scale q p') : p ≤ p' := by
  rcases h.low with hp | hp
  · exact hp ▸ h'.least
  · have : (2 : ℚ) ^ (p + 52) < 2 ^ (p' + 53) := lt_of_le_of_lt hp h'.high
    have := (zpow_lt_zpow_iff_right₀ (by norm_num : (1 : ℚ) < 2)).mp this
    omega

theorem Scale.unique {q : ℚ} {p p' : Int} (h : Scale q p) (h' : Scale q p') : p = p' :=
  Int.le_antisymm (h.le h') (h'.le h)

theorem log2_bounds {n : Nat} (h : 0 < n) :
    (2 : ℚ) ^ (n.log2 : Int) ≤ n ∧ (n : ℚ) < 2 ^ ((n.log2 : Int) + 1) := by
  constructor
  · rw [zpow_natCast]
    exact_mod_cast Nat.log2_self_le (by omega)
  · have : n < 2 ^ (n.log2 + 1) := Nat.lt_log2_self
    rw [← Nat.cast_succ, zpow_natCast]
    exact_mod_cast this

/-- The quotient of two numbers, by their logarithms. -/
theorem ratio_bounds {num den : Nat} (hn : 0 < num) (hd : 0 < den) :
    (2 : ℚ) ^ ((num.log2 : Int) - den.log2 - 1) < num / den ∧
      (num : ℚ) / den < 2 ^ ((num.log2 : Int) - den.log2 + 1) := by
  have ⟨n1, n2⟩ := log2_bounds hn
  have ⟨d1, d2⟩ := log2_bounds hd
  have hd' : (0 : ℚ) < den := by exact_mod_cast hd
  constructor
  · rw [lt_div_iff₀ hd']
    calc (2 : ℚ) ^ ((num.log2 : Int) - den.log2 - 1) * den
        < 2 ^ ((num.log2 : Int) - den.log2 - 1) * 2 ^ ((den.log2 : Int) + 1) := by gcongr
      _ = 2 ^ (num.log2 : Int) := by rw [← zpow_add₀ (by norm_num)]; congr 1; ring
      _ ≤ num := n1
  · rw [div_lt_iff₀ hd']
    calc (num : ℚ) < 2 ^ ((num.log2 : Int) + 1) := n2
      _ = 2 ^ ((num.log2 : Int) - den.log2 + 1) * 2 ^ (den.log2 : Int) := by
          rw [← zpow_add₀ (by norm_num)]; congr 1; ring
      _ ≤ 2 ^ ((num.log2 : Int) - den.log2 + 1) * den := by gcongr

/-- The estimate that `ofRatio` starts from. -/
def guess (num den : Nat) : Int := max (-1074) ((num.log2 : Int) - (den.log2 : Int) - 53)

theorem scaled_lt_iff {num den : Nat} (hd : 0 < den) (p : Int) :
    (scaled num den p).1 / (scaled num den p).2 < Nat.pow 2 53 ↔
      (num : ℚ) / den < 2 ^ (p + 53) := by
  have hpos : 0 < (scaled num den p).2 := scaled_pos hd p
  have hpos' : (0 : ℚ) < (scaled num den p).2 := by exact_mod_cast hpos
  have hsplit : (num : ℚ) / den < 2 ^ (p + 53) ↔ (num : ℚ) / den / 2 ^ p < 2 ^ 53 := by
    have := zpow_pos (show (0 : ℚ) < 2 by norm_num) p
    rw [div_lt_iff₀ this, zpow_add₀ (by norm_num), mul_comm ((2 : ℚ) ^ p)]
    rfl
  rw [hsplit, ← scaled_ratio, div_lt_iff₀ hpos', Nat.div_lt_iff_lt_mul hpos]
  exact_mod_cast Iff.rfl

theorem scale_guess {num den : Nat} (hn : 0 < num) (hd : 0 < den) :
    Scale ((num : ℚ) / den)
      (if (scaled num den (guess num den)).1 / (scaled num den (guess num den)).2 < Nat.pow 2 53
        then guess num den else guess num den + 1) := by
  have ⟨lo, hi⟩ := ratio_bounds hn hd
  simp only [scaled_lt_iff hd]
  unfold guess
  rcases Int.lt_or_le ((num.log2 : Int) - den.log2 - 53) (-1074) with h | h
  · rw [max_eq_left (le_of_lt h)]
    have : (num : ℚ) / den < 2 ^ ((-1074 : Int) + 53) :=
      lt_of_lt_of_le hi (zpow_le_zpow_right₀ (by norm_num) (by omega))
    rw [if_pos this]
    exact ⟨le_refl _, this, .inl rfl⟩
  · rw [max_eq_right h]
    split
    · next hlt =>
      refine ⟨h, hlt, .inr (le_of_lt (lt_of_le_of_lt (le_of_eq ?_) lo))⟩
      congr 1; ring
    · next hge =>
      refine ⟨by omega, lt_of_lt_of_le hi (le_of_eq ?_), .inr ?_⟩
      · congr 1; ring
      · have := not_lt.mp hge
        rwa [show (num.log2 : Int) - den.log2 - 53 + 1 + 52 = num.log2 - den.log2 - 53 + 53 by ring]

/-- The double of this significand, if its power of two is not too large. -/
def place (negative : Bool) (m : Nat) (p : Int) : Option Binary64 :=
  if m < 2 ^ 52 then some (ofFields negative 0 m)
  else if p + 1075 < 2047 then some (ofFields negative (p + 1075).toNat (m - 2 ^ 52))
  else none

/-- A quotient is rounded at its power of two; what comes up to the next one takes that. -/
theorem ofRatio_of_scale {num den : Nat} {p : Int} (negative : Bool) (hn : 0 < num) (hd : 0 < den)
    (hp : Scale ((num : ℚ) / den) p) : ofRatio negative num den =
      if Decimal.roundHalfEven (scaled num den p).1 (scaled num den p).2 = 2 ^ 53
      then place negative (2 ^ 52) (p + 1)
      else place negative (Decimal.roundHalfEven (scaled num den p).1 (scaled num den p).2) p := by
  have h := (scale_guess hn hd).unique hp
  unfold guess at h
  unfold ofRatio place
  rw [if_neg (by omega)]
  simp only [h, Nat.pow_eq]
  by_cases hc : Decimal.roundHalfEven (scaled num den p).1 (scaled num den p).2 = 2 ^ 53
  · simp only [if_pos hc]
  · simp only [if_neg hc]

/-! ## Finite results -/

theorem isFinite_ofFields {negative : Bool} {e f : Nat} (he : e < 2047) (hf : f < 2 ^ 52) :
    (ofFields negative e f).isFinite = true := by
  have : (ofFields negative e f).exponentField = e := by
    rw [exponentField_eq, toNat_ofFields (by omega) hf]
    split <;> omega
  unfold isFinite
  rw [this]
  exact bne_iff_ne.mpr (by omega)

theorem isFinite_zero (negative : Bool) : (zero negative).isFinite = true :=
  isFinite_ofFields (by decide) (by decide)

theorem isFinite_of_place {negative : Bool} {m : Nat} {p : Int} {x : Binary64}
    (hm : m < 2 ^ 53) (h : place negative m p = some x) : x.isFinite = true := by
  unfold place at h
  split at h
  · next hlt => cases h; exact isFinite_ofFields (by decide) hlt
  · split at h
    · cases h; exact isFinite_ofFields (by omega) (by omega)
    · cases h

/-- A quotient is never read as an infinity. -/
theorem isFinite_of_ofRatio {negative : Bool} {num den : Nat} {x : Binary64} (hd : 0 < den)
    (h : ofRatio negative num den = some x) : x.isFinite = true := by
  rcases Nat.eq_zero_or_pos num with rfl | hn
  · cases h; exact isFinite_zero negative
  obtain ⟨p, scale⟩ : ∃ p, Scale ((num : ℚ) / den) p := ⟨_, scale_guess hn hd⟩
  rw [ofRatio_of_scale negative hn hd scale] at h
  by_cases hm : Decimal.roundHalfEven (scaled num den p).1 (scaled num den p).2 = 2 ^ 53
  · rw [if_pos hm] at h
    exact isFinite_of_place (by decide) h
  · rw [if_neg hm] at h
    refine isFinite_of_place ?_ h
    have hlt := (scaled_lt_iff hd _).mpr scale.high
    rw [Nat.pow_eq] at hlt
    rcases Decimal.roundHalfEven_eq_or (scaled num den p).1 (scaled num den p).2 with e | e <;>
      rw [e] at hm ⊢ <;> omega

/-! ## The reals that round to a double -/

/-- A quotient of the last place, in quarters, lies within the bounds. -/
def Catchment.Covers (c : Catchment) (r : ℚ) : Prop :=
  if c.closed then c.low ≤ 4 * r ∧ 4 * r ≤ c.high else c.low < 4 * r ∧ 4 * r < c.high

/-- `q` is among the reals that round to the absolute value of `x`. -/
def Catches (x : Binary64) (q : ℚ) : Prop := x.catchment.Covers (q / 2 ^ x.power)

section Parts

variable {x : Binary64}

theorem exponentField_lt (x : Binary64) : x.exponentField < 2 ^ 11 := by
  rw [exponentField_eq]; exact Nat.mod_lt _ (by decide)

theorem fractionField_lt (x : Binary64) : x.fractionField < 2 ^ 52 := by
  rw [fractionField_eq]; exact Nat.mod_lt _ (by decide)

theorem exponentField_lt_of_finite (h : x.isFinite = true) : x.exponentField < 2047 := by
  have := x.exponentField_lt
  unfold isFinite at h
  have : x.exponentField ≠ 2047 := by simpa using h
  omega

theorem significand_lt (x : Binary64) : x.significand < 2 ^ 53 := by
  have := x.fractionField_lt
  unfold significand
  split
  · omega
  · change 2 ^ 52 + _ < _
    omega

theorem power_ge (x : Binary64) : -1074 ≤ x.power := by
  unfold power; split <;> omega

theorem power_or_significand (x : Binary64) :
    x.exponentField = 0 ∧ x.power = -1074 ∧ x.significand = x.fractionField ∨
      1 ≤ x.exponentField ∧ x.power = x.exponentField - 1075 ∧
        x.significand = 2 ^ 52 + x.fractionField := by
  unfold power significand
  by_cases h : x.exponentField = 0
  · simp [h]
  · rw [if_neg h, if_neg h]
    exact .inr ⟨by omega, rfl, rfl⟩

/-- The double itself, found again from significand and power. -/
theorem place_parts (h : x.isFinite = true) :
    place x.negative x.significand x.power = some x := by
  have hf := x.fractionField_lt
  have he := exponentField_lt_of_finite h
  have hx := x.ofFields_fields
  unfold place
  rcases x.power_or_significand with ⟨h0, -, hm⟩ | ⟨h0, hp, hm⟩
  · rw [hm, if_pos hf, ← h0, hx]
  · rw [hm, hp, if_neg (by omega), if_pos (by omega), Nat.add_sub_cancel_left,
      show ((x.exponentField : Int) - 1075 + 1075).toNat = x.exponentField by omega, hx]

theorem catchment_low (x : Binary64) :
    x.catchment.low = 4 * x.significand - 1 ∧ x.fractionField = 0 ∧ 1 < x.exponentField ∨
      x.catchment.low = 4 * x.significand - 2 ∧ ¬ (x.fractionField = 0 ∧ 1 < x.exponentField) := by
  unfold catchment
  simp only
  split
  · next h => exact .inl ⟨rfl, h⟩
  · next h => exact .inr ⟨rfl, h⟩

theorem Catchment.Covers.bounds {c : Catchment} {r : ℚ} (h : c.Covers r) :
    (c.low : ℚ) ≤ 4 * r ∧ 4 * r ≤ c.high := by
  unfold Covers at h
  split at h
  · exact h
  · exact ⟨h.1.le, h.2.le⟩

theorem Catchment.Covers.closed {c : Catchment} {r : ℚ} (h : c.Covers r)
    (edge : 4 * r = c.low ∨ 4 * r = c.high) : c.closed = true := by
  unfold Covers at h
  split at h
  · assumption
  · rcases edge with e | e <;> simp [e] at h

theorem catchment_low_ge (hs : 0 < x.significand) :
    (4 * x.significand : ℚ) - 2 ≤ x.catchment.low := by
  rcases x.catchment_low with ⟨e, -⟩ | ⟨e, -⟩ <;> rw [e, Nat.cast_sub (by omega)] <;> push_cast <;>
    linarith

theorem catchment_high (x : Binary64) : (x.catchment.high : ℚ) = 4 * x.significand + 2 := by
  change ((4 * x.significand + 2 : ℕ) : ℚ) = _
  push_cast; rfl

section Catches

variable {num den : Nat} (hs : 0 < x.significand) (hd : 0 < den) (h : x.Catches (num / den))

include hs hd h

/-- At the power of the double itself, what it catches is rounded to its significand. -/
theorem round_at_power :
    Decimal.roundHalfEven (scaled num den x.power).1 (scaled num den x.power).2 =
      x.significand := by
  have ⟨lo, hi⟩ := Catchment.Covers.bounds h
  have hlow := catchment_low_ge hs
  have hhigh := x.catchment_high
  refine Decimal.roundHalfEven_of_ratio (scaled_pos hd _) ?_ ?_ ?_ <;> rw [scaled_ratio]
  · linarith
  · linarith
  · intro tie
    have edge : x.catchment.closed = true := by
      refine h.closed ?_
      rcases tie with e | e
      · left
        rcases x.catchment_low with ⟨e', -⟩ | ⟨e', -⟩
        · rw [e', Nat.cast_sub (by omega)] at lo
          push_cast at lo
          linarith
        · rw [e', Nat.cast_sub (by omega)]
          push_cast
          linarith
      · right
        rw [hhigh]
        linarith
    simpa [catchment] using edge

/-- Just below a power of two a caught value has the power of the doubles before it; it is
rounded up to the power of two. -/
theorem round_below_power (hp : x.power ≠ -1074)
    (hlt : (num : ℚ) / den / 2 ^ x.power < 2 ^ 52) :
    x.significand = 2 ^ 52 ∧ 2 ^ 51 ≤ (num : ℚ) / den / 2 ^ x.power ∧
      Decimal.roundHalfEven (scaled num den (x.power - 1)).1
        (scaled num den (x.power - 1)).2 = 2 ^ 53 := by
  have lo := (Catchment.Covers.bounds h).1
  have hlow := catchment_low_ge hs
  set r : ℚ := (num : ℚ) / den / 2 ^ x.power with hr
  rcases x.power_or_significand with ⟨-, h', -⟩ | ⟨he, hpow, hm⟩
  · exact absurd h' hp
  have hfrac : x.fractionField = 0 := by
    have : (x.fractionField : ℚ) < 1 := by
      rw [hm] at hlow
      push_cast at hlow
      linarith
    exact_mod_cast Nat.lt_one_iff.mp (by exact_mod_cast this)
  rw [hfrac, Nat.add_zero] at hm
  have near : 4 * (2 : ℚ) ^ 52 - 1 ≤ 4 * r := by
    rcases x.catchment_low with ⟨e, -⟩ | ⟨-, e⟩
    · rw [e, hm] at lo
      norm_num at lo ⊢
      linarith
    · exact absurd ⟨hfrac, by omega⟩ e
  have hratio : (num : ℚ) / den / 2 ^ (x.power - 1) = 2 * r := by
    rw [hr, zpow_sub_one₀ (by norm_num)]
    field_simp
  refine ⟨hm, by norm_num at near ⊢; linarith, ?_⟩
  refine Decimal.roundHalfEven_of_ratio (scaled_pos hd _) ?_ ?_ (fun _ => rfl) <;>
    rw [scaled_ratio, hratio] <;> push_cast <;> linarith

/-- Correct rounding: whatever lies in the catchment of a double is read as that double. -/
theorem ofRatio_of_catches (fin : x.isFinite = true) :
    ofRatio x.negative num den = some x := by
  have ⟨lo, hi⟩ := Catchment.Covers.bounds h
  have hlow := catchment_low_ge hs
  have hhigh := x.catchment_high
  have hp2 : (0 : ℚ) < 2 ^ x.power := zpow_pos (by norm_num) _
  have hm1 : (1 : ℚ) ≤ x.significand := by exact_mod_cast hs
  have hm53 : (x.significand : ℚ) + 1 ≤ 2 ^ 53 := by exact_mod_cast x.significand_lt
  have hround := round_at_power hs hd h
  have hround' := round_below_power hs hd h
  set r : ℚ := (num : ℚ) / den / 2 ^ x.power with hr
  have hq : (num : ℚ) / den = r * 2 ^ x.power := by rw [hr]; field_simp
  have hn : 0 < num := by
    rcases Nat.eq_zero_or_pos num with h0 | h0
    · rw [h0] at hr
      norm_num at hr
      linarith
    · exact h0
  by_cases normal : x.power = -1074 ∨ 2 ^ (x.power + 52) ≤ (num : ℚ) / den
  · have below : (num : ℚ) / den < 2 ^ (x.power + 53) := by
      rw [hq, zpow_add₀ (by norm_num), mul_comm]
      have : r < 2 ^ (53 : Int) := by norm_num at hm53 ⊢; linarith
      gcongr
    rw [ofRatio_of_scale x.negative hn hd ⟨x.power_ge, below, normal⟩, hround,
      if_neg x.significand_lt.ne, place_parts fin]
  · obtain ⟨hp, hlt⟩ := not_or.mp normal
    have hr52 : r < 2 ^ 52 := by
      rw [not_le, hq, zpow_add₀ (by norm_num), mul_comm] at hlt
      exact lt_of_mul_lt_mul_left hlt hp2.le
    obtain ⟨hm, near, hround'⟩ := hround' hp hr52
    have scale : Scale ((num : ℚ) / den) (x.power - 1) := by
      refine ⟨by have := x.power_ge; omega, ?_, .inr ?_⟩
      · rw [show x.power - 1 + 53 = x.power + 52 by ring]
        exact not_le.mp hlt
      · rw [hq, show x.power - 1 + 52 = 51 + x.power by ring, zpow_add₀ (by norm_num)]
        have : (2 : ℚ) ^ (51 : Int) ≤ r := by exact_mod_cast near
        gcongr
    rw [ofRatio_of_scale x.negative hn hd scale, hround', if_pos rfl, ← hm, sub_add_cancel,
      place_parts fin]

end Catches

end Parts

end Binary64

end ScriptHost
