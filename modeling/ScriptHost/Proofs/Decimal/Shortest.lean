import ScriptHost.Proofs.Decimal.Rounding

/-!
# The shortest digits read back

Every grid point that the search accepts lies in the catchment of the double,
and so does the nearest point of seventeen digits. The decimal found is
therefore read as the double it was printed from (`ofDecimal_of_catches`,
`shortest_spec`), and neither guard on the magnitude stands in the way. Writers
of doubles rely on that alone (`ReadsBack`).
-/

namespace ScriptHost

namespace Decimal

/-- The number itself. -/
def value (d : Decimal) : ℚ := d.digits * 10 ^ d.exponent

theorem value_trim (fuel : Nat) (d : Decimal) : (trim fuel d).value = d.value := by
  induction fuel generalizing d with
  | zero => rfl
  | succ fuel ih =>
    unfold trim
    split
    · next h =>
      rw [ih]
      have hd : (d.digits : ℚ) = (d.digits / 10 : ℕ) * 10 := by
        exact_mod_cast (Nat.div_mul_cancel (Nat.dvd_of_mod_eq_zero h)).symm
      unfold value
      rw [hd, zpow_add_one₀ (by norm_num)]
      ring
    · rfl

theorem digits_trim_pos (fuel : Nat) {d : Decimal} (h : 0 < d.digits) :
    0 < (trim fuel d).digits := by
  induction fuel generalizing d with
  | zero => exact h
  | succ fuel ih =>
    unfold trim
    split
    · exact ih (by simp only; omega)
    · exact h

theorem exponent_le_trim (fuel : Nat) (d : Decimal) : d.exponent ≤ (trim fuel d).exponent := by
  induction fuel generalizing d with
  | zero => exact Int.le_refl _
  | succ fuel ih =>
    unfold trim
    split
    · exact Int.le_trans (by simp only; omega) (ih _)
    · exact Int.le_refl _

end Decimal

namespace Binary64

theorem inUnits_pos {num den : Nat} (h : 0 < den) (e : Int) : 0 < (inUnits num den e).2 := by
  cases e with
  | ofNat e => exact Nat.mul_pos h (Nat.pow_pos (by decide))
  | negSucc e => exact h

theorem inUnits_ratio (num den : Nat) (e : Int) :
    ((inUnits num den e).1 : ℚ) / (inUnits num den e).2 = (num : ℚ) / den / 10 ^ e := by
  cases e with
  | ofNat e =>
    change (num : ℚ) / ((den * 10 ^ e : ℕ) : ℚ) = _
    rw [Int.ofNat_eq_natCast, zpow_natCast, div_div]
    push_cast
    rfl
  | negSucc e =>
    change ((num * 10 ^ (e + 1) : ℕ) : ℚ) / den = _
    rw [zpow_negSucc, div_inv_eq_mul]
    push_cast
    ring

theorem quarter_ratio (x : Binary64) :
    0 < x.quarter.2 ∧ (x.quarter.1 : ℚ) / x.quarter.2 = 2 ^ x.power / 4 := by
  have h : (2 : ℚ) ^ x.power / 4 = 2 ^ (x.power - 2) := by
    rw [zpow_sub₀ (by norm_num)]; norm_num
  rw [h]
  unfold quarter
  cases x.power - 2 with
  | ofNat p =>
    refine ⟨Nat.one_pos, ?_⟩
    change ((2 ^ p : ℕ) : ℚ) / ((1 : ℕ) : ℚ) = _
    simp
  | negSucc p =>
    refine ⟨Nat.two_pow_pos _, ?_⟩
    change ((1 : ℕ) : ℚ) / ((2 ^ (p + 1) : ℕ) : ℚ) = _
    simp [zpow_negSucc]

/-! ## The leading digit -/

theorem atLeastPowerOfTen_iff {num den : Nat} (hd : 0 < den) (e : Int) :
    atLeastPowerOfTen num den e = true ↔ (10 : ℚ) ^ e ≤ num / den := by
  have hd' : (0 : ℚ) < den := by exact_mod_cast hd
  rw [le_div_iff₀ hd']
  cases e with
  | ofNat e =>
    change decide (10 ^ e * den ≤ num) = true ↔ _
    rw [decide_eq_true_iff, Int.ofNat_eq_natCast, zpow_natCast]
    exact_mod_cast Iff.rfl
  | negSucc e =>
    change decide (den ≤ num * 10 ^ (e + 1)) = true ↔ _
    rw [decide_eq_true_iff, zpow_negSucc, inv_mul_le_iff₀ (by positivity), mul_comm num]
    exact_mod_cast Iff.rfl

/-- A power of ten below a power of two, by their exponents. -/
theorem ten_zpow_le_two_zpow {k t : Int} (h : 103 * k ≤ 31 * t) (h' : 93 * k ≤ 28 * t) :
    (10 : ℚ) ^ k ≤ 2 ^ t := by
  rcases Int.le_total 0 k with hk | hk
  · obtain ⟨k, rfl⟩ := Int.eq_ofNat_of_zero_le hk
    obtain ⟨t, rfl⟩ := Int.eq_ofNat_of_zero_le (by omega : 0 ≤ t)
    have : (10 ^ k) ^ 31 ≤ (2 ^ t) ^ 31 := calc
      (10 ^ k) ^ 31 = (10 ^ 31) ^ k := by rw [← Nat.pow_mul, ← Nat.pow_mul, Nat.mul_comm]
      _ ≤ (2 ^ 103) ^ k := Nat.pow_le_pow_left (by decide) _
      _ = 2 ^ (103 * k) := by rw [← Nat.pow_mul]
      _ ≤ 2 ^ (31 * t) := Nat.pow_le_pow_right (by decide) (by omega)
      _ = (2 ^ t) ^ 31 := by rw [← Nat.pow_mul, Nat.mul_comm]
    have := (Nat.pow_le_pow_iff_left (by decide)).mp this
    rw [zpow_natCast, zpow_natCast]
    exact_mod_cast this
  · obtain ⟨k, rfl⟩ : ∃ j : Nat, k = -j := ⟨k.natAbs, by omega⟩
    rcases Int.le_total 0 t with ht | ht
    · exact le_trans (zpow_le_one_of_nonpos₀ (by norm_num) hk) (one_le_zpow₀ (by norm_num) ht)
    obtain ⟨t, rfl⟩ : ∃ j : Nat, t = -j := ⟨t.natAbs, by omega⟩
    have : (2 ^ t) ^ 28 ≤ (10 ^ k) ^ 28 := calc
      (2 ^ t) ^ 28 = 2 ^ (28 * t) := by rw [← Nat.pow_mul, Nat.mul_comm]
      _ ≤ 2 ^ (93 * k) := Nat.pow_le_pow_right (by decide) (by omega)
      _ = (2 ^ 93) ^ k := by rw [← Nat.pow_mul]
      _ ≤ (10 ^ 28) ^ k := Nat.pow_le_pow_left (by decide) _
      _ = (10 ^ k) ^ 28 := by rw [← Nat.pow_mul, ← Nat.pow_mul, Nat.mul_comm]
    have := (Nat.pow_le_pow_iff_left (by decide)).mp this
    rw [zpow_neg, zpow_neg, zpow_natCast, zpow_natCast]
    gcongr
    exact_mod_cast this

/-- The estimate of the leading exponent is never too large, and not much too small. -/
theorem leadingExponent_spec {num den : Nat} (hn : 0 < num) (hd : 0 < den)
    (hlow : -2000 ≤ (num.log2 : Int) - den.log2) (hhigh : (num.log2 : Int) - den.log2 ≤ 2000) :
    (10 : ℚ) ^ leadingExponent num den ≤ num / den ∧
      ((num.log2 : Int) - den.log2) * 30103 / 100000 - 1 ≤ leadingExponent num den := by
  have start : (10 : ℚ) ^ (((num.log2 : Int) - den.log2) * 30103 / 100000 - 1) ≤ num / den := by
    refine le_trans (ten_zpow_le_two_zpow ?_ ?_) (ratio_bounds hn hd).1.le <;> omega
  have up : ∀ e : Int, (10 : ℚ) ^ e ≤ num / den →
      (10 : ℚ) ^ (if atLeastPowerOfTen num den (e + 1) then e + 1 else e) ≤ num / den ∧
        e ≤ if atLeastPowerOfTen num den (e + 1) then e + 1 else e := by
    intro e he
    split
    · next h => exact ⟨(atLeastPowerOfTen_iff hd _).mp h, by omega⟩
    · exact ⟨he, Int.le_refl _⟩
  unfold leadingExponent
  simp only
  have h1 := up _ start
  have h2 := up _ h1.1
  have h3 := up _ h2.1
  exact ⟨h3.1, h1.2.trans (h2.2.trans h3.2)⟩

/-! ## Digits that read back -/

section Search

variable {x : Binary64}

/-- A grid point is kept only if it reads back. -/
theorem catches_of_holds {e : Int} {k : Nat} (h : x.catchment.holds
    (inUnits x.quarter.1 x.quarter.2 e).1 (inUnits x.quarter.1 x.quarter.2 e).2 k = true) :
    x.Catches ((k : ℚ) * 10 ^ e) := by
  obtain ⟨hpos, hq⟩ := x.quarter_ratio
  have hd : 0 < (inUnits x.quarter.1 x.quarter.2 e).2 := inUnits_pos hpos e
  have hratio := inUnits_ratio x.quarter.1 x.quarter.2 e
  rw [hq] at hratio
  set n := (inUnits x.quarter.1 x.quarter.2 e).1
  set d := (inUnits x.quarter.1 x.quarter.2 e).2
  have hd' : (0 : ℚ) < d := by exact_mod_cast hd
  have hp2 : (0 : ℚ) < 2 ^ x.power := zpow_pos (by norm_num) _
  have he : (0 : ℚ) < 10 ^ e := zpow_pos (by norm_num) _
  have hn : (n : ℚ) = d * (2 ^ x.power / 4 / 10 ^ e) := by rw [← hratio]; field_simp
  -- a bound in units of the grid is the same bound in quarters of the last place
  have key : ∀ b : Nat, (b * n ≤ k * d ↔ (b : ℚ) ≤ 4 * ((k : ℚ) * 10 ^ e / 2 ^ x.power)) ∧
      (k * d ≤ b * n ↔ 4 * ((k : ℚ) * 10 ^ e / 2 ^ x.power) ≤ b) := by
    intro b
    have e1 : (b : ℚ) * n = d * (2 ^ x.power / 4 / 10 ^ e) * b := by rw [hn]; ring
    have e2 : (k : ℚ) * d =
        d * (2 ^ x.power / 4 / 10 ^ e) * (4 * (k * 10 ^ e / 2 ^ x.power)) := by field_simp
    have hc : (0 : ℚ) < d * (2 ^ x.power / 4 / 10 ^ e) := by positivity
    constructor
    · rw [← mul_le_mul_iff_right₀ hc, ← e1, ← e2]; exact_mod_cast Iff.rfl
    · rw [← mul_le_mul_iff_right₀ hc, ← e1, ← e2]; exact_mod_cast Iff.rfl
  unfold Catchment.holds at h
  unfold Catches Catchment.Covers
  split
  · next hc =>
    simp only [hc, if_true, Bool.and_eq_true, decide_eq_true_eq] at h
    exact ⟨(key _).1.mp h.1, (key _).2.mp h.2⟩
  · next hc =>
    simp only [hc, Bool.false_eq_true, if_false, Bool.and_eq_true, decide_eq_true_eq] at h
    refine ⟨lt_of_not_ge fun hge => ?_, lt_of_not_ge fun hge => ?_⟩
    · exact absurd ((key x.catchment.low).2.mpr hge) (by omega)
    · exact absurd ((key x.catchment.high).1.mpr hge) (by omega)

theorem holds_of_pick {c : Catchment} {n d k : Nat} (h : c.pick n d = some k) :
    c.holds n d k = true := by
  have near := Decimal.roundHalfEven_eq_or (c.value * n) d
  unfold Catchment.pick at h
  simp only at h
  split at h
  · cases h
  · next h1 _ => cases h; exact h1
  · next _ h2 => cases h; exact h2
  · next h1 h2 =>
    cases h
    rcases near with e | e <;> rw [e]
    · exact h1
    · exact h2

theorem catchment_value (x : Binary64) :
    (x.catchment.value * x.quarter.1 : ℚ) / x.quarter.2 = x.significand * 2 ^ x.power := by
  rw [mul_div_assoc, x.quarter_ratio.2]
  change ((4 * x.significand : ℕ) : ℚ) * _ = _
  push_cast
  ring

/-- Seventeen digits: the nearest grid point reads back, as the grid is finer than the doubles. -/
theorem catches_seventeen (hs : 0 < x.significand) {lead : Int}
    (hlead : (10 : ℚ) ^ lead ≤ x.significand * 2 ^ x.power) :
    x.Catches ((Decimal.roundHalfEven
      (x.catchment.value * (inUnits x.quarter.1 x.quarter.2 (lead - 16)).1)
      (inUnits x.quarter.1 x.quarter.2 (lead - 16)).2 : ℚ) * 10 ^ (lead - 16)) := by
  obtain ⟨hpos, hq⟩ := x.quarter_ratio
  have hd : 0 < (inUnits x.quarter.1 x.quarter.2 (lead - 16)).2 := inUnits_pos hpos (lead - 16)
  have hratio := inUnits_ratio x.quarter.1 x.quarter.2 (lead - 16)
  rw [hq] at hratio
  set n := (inUnits x.quarter.1 x.quarter.2 (lead - 16)).1
  set d := (inUnits x.quarter.1 x.quarter.2 (lead - 16)).2
  have hd' : (0 : ℚ) < d := by exact_mod_cast hd
  have hp2 : (0 : ℚ) < 2 ^ x.power := zpow_pos (by norm_num) _
  obtain ⟨near1, near2⟩ := Decimal.roundHalfEven_near (x.catchment.value * n) d hd
  set k := Decimal.roundHalfEven (x.catchment.value * n) d
  have he : (0 : ℚ) < 10 ^ (lead - 16) := zpow_pos (by norm_num) _
  have hstep : (10 : ℚ) ^ lead = 10 ^ 16 * 10 ^ (lead - 16) := by
    rw [zpow_sub₀ (by norm_num)]; field_simp
  have hm : (1 : ℚ) ≤ x.significand := by exact_mod_cast hs
  have hm53 : (x.significand : ℚ) < 9007199254740992 := by exact_mod_cast x.significand_lt
  have hv : (x.catchment.value : ℚ) = 4 * x.significand := by
    change ((4 * x.significand : ℕ) : ℚ) = _
    push_cast; rfl
  -- `u` is one step of the grid, in quarters of the last place
  set u : ℚ := 4 * 10 ^ (lead - 16) / 2 ^ x.power with hu
  have hupos : 0 < u := by positivity
  have hn : (n : ℚ) * u = d := by
    have : (n : ℚ) = d * (2 ^ x.power / 4 / 10 ^ (lead - 16)) := by rw [← hratio]; field_simp
    rw [this, hu]
    field_simp
  have hsmall : u * 10 ^ 16 ≤ 4 * x.significand := by
    rw [hstep] at hlead
    rw [hu, div_mul_eq_mul_div, div_le_iff₀ hp2]
    linarith
  have goal : (k : ℚ) * 10 ^ (lead - 16) / 2 ^ x.power * 4 = k * u := by rw [hu]; ring
  have b1 : 2 * (k * u) ≤ 2 * (4 * x.significand) + u := by
    have : (2 * (k * d) : ℚ) ≤ 2 * (x.catchment.value * n) + d := by exact_mod_cast near1
    rw [hv] at this
    have h := mul_le_mul_of_nonneg_right this hupos.le
    have : (2 * (k * u)) * d ≤ (2 * (4 * x.significand) + u) * d := by
      calc _ = 2 * (k * d) * u := by ring
        _ ≤ _ := h
        _ = 2 * (4 * x.significand) * (n * u) + d * u := by ring
        _ = _ := by rw [hn]; ring
    exact le_of_mul_le_mul_right this hd'
  have b2 : 2 * (4 * x.significand) ≤ 2 * (k * u) + u := by
    have : (2 * (x.catchment.value * n) : ℚ) ≤ 2 * (k * d) + d := by exact_mod_cast near2
    rw [hv] at this
    have h := mul_le_mul_of_nonneg_right this hupos.le
    have : (2 * (4 * x.significand)) * (d : ℚ) ≤ (2 * (k * u) + u) * d := by
      calc (2 * (4 * x.significand)) * (d : ℚ) = 2 * (4 * x.significand * n) * u := by
            rw [← hn]; ring
        _ ≤ _ := h
        _ = _ := by ring
    exact le_of_mul_le_mul_right this hd'
  have strict : (x.catchment.low : ℚ) < k * u ∧ k * u < x.catchment.high := by
    have hhigh : (x.catchment.high : ℚ) = 4 * x.significand + 2 := by
      change ((4 * x.significand + 2 : ℕ) : ℚ) = _
      push_cast; rfl
    constructor
    · rcases x.catchment_low with ⟨e, hf, hexp⟩ | ⟨e, -⟩
      · rw [e, Nat.cast_sub (by omega)]
        rcases x.power_or_significand with ⟨h0, -⟩ | ⟨-, -, hsig⟩
        · omega
        · rw [hf] at hsig
          rw [hsig] at hsmall b2 ⊢
          norm_num at hsmall b2 ⊢
          linarith
      · rw [e, Nat.cast_sub (by omega)]
        push_cast
        norm_num at hsmall
        linarith
    · rw [hhigh]
      norm_num at hsmall
      linarith
  unfold Catches Catchment.Covers
  rw [mul_comm (4 : ℚ), goal]
  split
  · exact ⟨strict.1.le, strict.2.le⟩
  · exact strict

theorem catches_searchGrids (hs : 0 < x.significand) {lead : Int}
    (hlead : (10 : ℚ) ^ lead ≤ x.significand * 2 ^ x.power) (fuel count : Nat)
    (h : fuel + count = 17) :
    x.Catches (searchGrids x.catchment x.quarter.1 x.quarter.2 lead fuel count).value ∧
      lead - 16 ≤ (searchGrids x.catchment x.quarter.1 x.quarter.2 lead fuel count).exponent := by
  induction fuel generalizing count with
  | zero =>
    obtain rfl : count = 17 := by omega
    have e : lead - ((17 : ℕ) : Int) + 1 = lead - 16 := by push_cast; ring
    unfold searchGrids
    simp only [e]
    exact ⟨catches_seventeen hs hlead, Int.le_refl _⟩
  | succ fuel ih =>
    unfold searchGrids
    simp only
    split
    · next k hk => exact ⟨catches_of_holds (holds_of_pick hk), by simp only; omega⟩
    · exact ih (count + 1) (by omega)

theorem significand_zpow_bounds (fin : x.isFinite = true) (hs : 0 < x.significand) :
    (2 : ℚ) ^ (-1074 : Int) ≤ x.significand * 2 ^ x.power ∧
      (x.significand : ℚ) * 2 ^ x.power < 2 ^ (1024 : Int) := by
  have hm : (1 : ℚ) ≤ x.significand := by exact_mod_cast hs
  have hm53 : (x.significand : ℚ) < 2 ^ (53 : Int) := by exact_mod_cast x.significand_lt
  have hp : x.power ≤ 971 := by
    have := exponentField_lt_of_finite fin
    rcases x.power_or_significand with ⟨-, h, -⟩ | ⟨-, h, -⟩ <;> omega
  have h2 : (0 : ℚ) < 2 ^ x.power := zpow_pos (by norm_num) _
  constructor
  · calc (2 : ℚ) ^ (-1074 : Int) ≤ 2 ^ x.power := zpow_le_zpow_right₀ (by norm_num) x.power_ge
      _ ≤ x.significand * 2 ^ x.power := le_mul_of_one_le_left h2.le hm
  · calc (x.significand : ℚ) * 2 ^ x.power < 2 ^ (53 : Int) * 2 ^ x.power := by gcongr
      _ = 2 ^ (53 + x.power) := (zpow_add₀ (by norm_num) _ _).symm
      _ ≤ 2 ^ (1024 : Int) := zpow_le_zpow_right₀ (by norm_num) (by omega)

/-- The shortest digits read back as the double, and its least digit is not beyond all doubles. -/
theorem shortest_spec (fin : x.isFinite = true) (hs : 0 < x.significand) :
    x.Catches x.shortest.value ∧ 0 < x.shortest.digits ∧ -341 ≤ x.shortest.exponent := by
  obtain ⟨hpos, -⟩ := x.quarter_ratio
  obtain ⟨vlow, vhigh⟩ := significand_zpow_bounds fin hs
  have hval := x.catchment_value
  have hnum : 0 < x.catchment.value * x.quarter.1 := by
    rcases Nat.eq_zero_or_pos (x.catchment.value * x.quarter.1) with h0 | h0
    · have : (x.catchment.value * x.quarter.1 : ℚ) = 0 := by exact_mod_cast h0
      rw [this, zero_div] at hval
      rw [← hval] at vlow
      exact absurd vlow (not_le.mpr (zpow_pos (by norm_num) _))
    · exact h0
  have hval' : ((x.catchment.value * x.quarter.1 : ℕ) : ℚ) / x.quarter.2 =
      x.significand * 2 ^ x.power := by push_cast; exact hval
  obtain ⟨r1, r2⟩ := ratio_bounds hnum hpos
  rw [hval'] at r1 r2
  have l1 := (zpow_lt_zpow_iff_right₀ (by norm_num : (1 : ℚ) < 2)).mp (lt_of_le_of_lt vlow r2)
  have l2 := (zpow_lt_zpow_iff_right₀ (by norm_num : (1 : ℚ) < 2)).mp (lt_trans r1 vhigh)
  obtain ⟨lead, leadLow⟩ := leadingExponent_spec hnum hpos (by omega) (by omega)
  rw [hval'] at lead
  obtain ⟨catches, exponent⟩ := catches_searchGrids hs lead 16 1 rfl
  unfold shortest
  simp only
  refine ⟨?_, ?_, ?_⟩
  · rw [Decimal.value_trim]; exact catches
  · refine Decimal.digits_trim_pos 20 (Nat.pos_of_ne_zero fun h0 => ?_)
    have hlow := (Catchment.Covers.bounds catches).1
    rw [Decimal.value, h0] at hlow
    norm_num at hlow
    rcases x.catchment_low with ⟨e, -⟩ | ⟨e, -⟩ <;> omega
  · refine Int.le_trans ?_ (Decimal.exponent_le_trim 20 _)
    omega

/-! ## Reading -/

theorem eight_zpow_le {e : Int} (h : 0 ≤ e) : (2 : ℚ) ^ (3 * e) ≤ 10 ^ e := by
  rw [zpow_mul]
  exact zpow_le_zpow_left₀ h (by norm_num) (by norm_num)

theorem sixteen_zpow_le {e : Int} (h : e ≤ 0) : (2 : ℚ) ^ (4 * e) ≤ 10 ^ e := by
  obtain ⟨n, rfl⟩ : ∃ n : Nat, e = -n := ⟨e.natAbs, by omega⟩
  rw [zpow_mul, zpow_neg, zpow_neg, zpow_natCast, zpow_natCast]
  exact inv_anti₀ (by positivity) (pow_le_pow_left₀ (by norm_num) (by norm_num) n)

/-- Neither guard on the magnitude stops a decimal that is near a double. -/
theorem ofDecimal_of_catches (fin : x.isFinite = true) (hs : 0 < x.significand) {d : Decimal}
    (hd : 0 < d.digits) (least : -341 ≤ d.exponent) (h : x.Catches d.value) :
    ofDecimal x.negative d.digits d.exponent = some x := by
  have size : (d.digits.log2 : Int) * 3 / 10 + d.exponent ≤ 400 := by
    have top : d.value < 2 ^ (1025 : Int) := by
      obtain ⟨-, vhigh⟩ := significand_zpow_bounds fin hs
      have hp : (0 : ℚ) < 2 ^ x.power := zpow_pos (by norm_num) _
      have hi := (Catchment.Covers.bounds h).2
      have hhigh : (x.catchment.high : ℚ) ≤ 8 * x.significand := by
        change ((4 * x.significand + 2 : ℕ) : ℚ) ≤ _
        exact_mod_cast (by omega : 4 * x.significand + 2 ≤ 8 * x.significand)
      calc d.value = d.value / 2 ^ x.power * 2 ^ x.power := by field_simp
        _ ≤ 2 * x.significand * 2 ^ x.power :=
            mul_le_mul_of_nonneg_right (by linarith) hp.le
        _ < 2 * 2 ^ (1024 : Int) := by rw [mul_assoc]; gcongr
        _ = 2 ^ (1025 : Int) := by
            rw [show (1025 : Int) = 1 + 1024 by norm_num, zpow_add₀ (by norm_num), zpow_one]
    have least' : (2 : ℚ) ^ ((d.digits.log2 : Int)) * 10 ^ d.exponent ≤ d.value :=
      mul_le_mul_of_nonneg_right (log2_bounds hd).1 (zpow_pos (by norm_num) _).le
    have exponents : ∀ t : Int, (2 : ℚ) ^ t ≤ 10 ^ d.exponent →
        (d.digits.log2 : Int) + t < 1025 := by
      intro t ht
      refine (zpow_lt_zpow_iff_right₀ (by norm_num : (1 : ℚ) < 2)).mp ?_
      calc (2 : ℚ) ^ ((d.digits.log2 : Int) + t) = 2 ^ (d.digits.log2 : Int) * 2 ^ t :=
            zpow_add₀ (by norm_num) _ _
        _ ≤ 2 ^ (d.digits.log2 : Int) * 10 ^ d.exponent := by gcongr
        _ < 2 ^ (1025 : Int) := lt_of_le_of_lt least' top
    rcases Int.le_total 0 d.exponent with h0 | h0
    · have := exponents _ (eight_zpow_le h0)
      omega
    · have := exponents _ (sixteen_zpow_le h0)
      omega
  unfold ofDecimal
  rw [if_neg (by omega)]
  simp only
  rw [if_neg (by omega), if_neg (by omega)]
  unfold Decimal.value at h
  cases he : d.exponent with
  | ofNat e =>
    rw [he, Int.ofNat_eq_natCast, zpow_natCast] at h
    exact ofRatio_of_catches hs Nat.one_pos (by simpa using h) fin
  | negSucc e =>
    rw [he, zpow_negSucc, ← div_eq_mul_inv] at h
    exact ofRatio_of_catches hs (Nat.pow_pos (by decide)) (by simpa using h) fin

end Search

/-- Overflow is reported, never read as an infinity. -/
theorem isFinite_of_ofDecimal {negative : Bool} {mantissa : Nat} {exponent : Int} {x : Binary64}
    (h : ofDecimal negative mantissa exponent = some x) : x.isFinite = true := by
  unfold ofDecimal at h
  simp only at h
  split at h
  · cases h; exact isFinite_zero negative
  split at h
  · cases h; exact isFinite_zero negative
  split at h
  · cases h
  split at h
  · exact isFinite_of_ofRatio Nat.one_pos h
  · exact isFinite_of_ofRatio (Nat.pow_pos (by decide)) h

/-- What is asked of a reader of decimals where doubles are written and read back: that it reads
zero, and the double from its shortest digits, however they are scaled. It need not read other
decimals as the nearest double. -/
structure ReadsBack (read : Bool → Nat → Int → Option Binary64) : Prop where
  zero : ∀ negative exponent, read negative 0 exponent = some (zero negative)
  shortest : ∀ x : Binary64, x.isFinite = true → 0 < x.significand → ∀ d : Decimal,
    d.value = x.shortest.value → 0 < d.digits → -341 ≤ d.exponent →
    read x.negative d.digits d.exponent = some x

theorem readsBack_ofDecimal : ReadsBack ofDecimal where
  zero _ _ := rfl
  shortest x fin hs _ same hd least :=
    ofDecimal_of_catches fin hs hd least (same ▸ (x.shortest_spec fin hs).1)

end Binary64

end ScriptHost
