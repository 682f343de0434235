import OperatorGraph.Decimal.Shortest
import OperatorGraph.Proofs.Binary.Rounding

/-!
Decimals as numbers. A decimal is read as the magnitude that its value alone decides, so every
spelling of the shortest decimal is read as the magnitude that it was made for.
-/

namespace OperatorGraph

namespace Binary

theorem roundQuotient_mul_right (num den : Nat) {k : Nat} (positive : 0 < k) :
    roundQuotient (num * k) (den * k) = roundQuotient num den := by
  have below : 2 * (num % den * k) < den * k ↔ 2 * (num % den) < den := by
    rw [← Nat.mul_assoc, Nat.mul_lt_mul_right positive]
  have above : den * k < 2 * (num % den * k) ↔ den < 2 * (num % den) := by
    rw [← Nat.mul_assoc, Nat.mul_lt_mul_right positive]
  simp only [roundQuotient, Nat.mul_div_mul_right _ _ positive, Nat.mul_mod_mul_right, below, above]

/-- Equal quotients are rounded to the same integer. -/
theorem roundQuotient_congr {num den num' den' : Nat} (pos : 0 < den) (pos' : 0 < den')
    (same : (num : ℚ) / den = num' / den') : roundQuotient num den = roundQuotient num' den' := by
  have den_ne : (den : ℚ) ≠ 0 := by exact_mod_cast pos.ne'
  have den_ne' : (den' : ℚ) ≠ 0 := by exact_mod_cast pos'.ne'
  have cross : num * den' = num' * den := by
    exact_mod_cast (div_eq_div_iff den_ne den_ne').mp same
  calc roundQuotient num den = roundQuotient (num * den') (den * den') :=
        (roundQuotient_mul_right num den pos').symm
    _ = roundQuotient (num' * den) (den' * den) := by rw [cross, Nat.mul_comm den]
    _ = roundQuotient num' den' := roundQuotient_mul_right num' den' pos

theorem roundQuotient_small {num den : Nat} (small : 2 * num < den) :
    roundQuotient num den = 0 := by
  have below : num < den := by omega
  simp [roundQuotient, Nat.div_eq_of_lt below, Nat.mod_eq_of_lt below, small]

namespace Format

variable (f : Format)

/-- Rounding is decided by the quotient alone. -/
theorem round_congr {num den num' den' : Nat} (pos : 0 < den) (pos' : 0 < den')
    (same : (num : ℚ) / den = num' / den') : f.round num den = f.round num' den' := by
  have den_ne : (den : ℚ) ≠ 0 := by exact_mod_cast pos.ne'
  have den_ne' : (den' : ℚ) ≠ 0 := by exact_mod_cast pos'.ne'
  have zero_iff : num = 0 ↔ num' = 0 := by
    have cross : num * den' = num' * den := by
      exact_mod_cast (div_eq_div_iff den_ne den_ne').mp same
    constructor
    · rintro rfl
      exact (Nat.mul_eq_zero.mp (cross.symm.trans (Nat.zero_mul _))).resolve_right pos.ne'
    · rintro rfl
      exact (Nat.mul_eq_zero.mp (cross.trans (Nat.zero_mul _))).resolve_right pos'.ne'
  unfold round
  by_cases zero : num = 0
  · rw [if_pos zero, if_pos (zero_iff.mp zero)]
  · have zero' : num' ≠ 0 := fun zero' => zero (zero_iff.mpr zero')
    have log : floorLog2 num den = floorLog2 num' den' := by
      obtain ⟨low, high⟩ := floorLog2_spec (Nat.pos_of_ne_zero zero') pos'
      exact floorLog2_eq (Nat.pos_of_ne_zero zero) pos (same ▸ low) (same ▸ high)
    rw [if_neg zero, if_neg zero', log]
    have two : 0 < 2 := by decide
    have scaled (k : Int) :
        ((scaleDown 2 num den k).1 : ℚ) / (scaleDown 2 num den k).2 =
          (scaleDown 2 num' den' k).1 / (scaleDown 2 num' den' k).2 := by
      rw [scaleDown_value two, scaleDown_value two, same]
    simp only [roundQuotient_congr (scaleDown_den_pos two num _ pos)
      (scaleDown_den_pos two num' _ pos') (scaled _)]

/-- A quotient from twice the largest power of two on is infinite. -/
theorem round_of_large {num den : Nat} (hn : 0 < num)
    (large : f.leastExponent + f.fractionBits + Nat.pow 2 f.exponentBits ≤ floorLog2 num den) :
    f.round num den = f.infinity := by
  have shift : Nat.pow 2 f.exponentBits ≤
      (max f.leastExponent (floorLog2 num den - f.fractionBits) - f.leastExponent).toNat := by omega
  have enough : f.infinity ≤
      (max f.leastExponent (floorLog2 num den - f.fractionBits) - f.leastExponent).toNat *
        f.fractions := by
    exact Nat.mul_le_mul_right _ ((Nat.sub_le _ 1).trans shift)
  rw [round, if_neg hn.ne']
  exact min_eq_left (enough.trans (Nat.le_add_right _ _))

/-- A quotient below half of the least positive number is zero. -/
theorem round_of_small {num den : Nat} (hn : 0 < num) (hd : 0 < den)
    (small : (num : ℚ) / den < 2 ^ (f.leastExponent - 1)) : f.round num den = 0 := by
  have two : (1 : ℚ) < 2 := by norm_num
  obtain ⟨low, _⟩ := floorLog2_spec hn hd
  have log := (zpow_lt_zpow_iff_right₀ two).mp (low.trans_lt small)
  have chosen : max f.leastExponent (floorLog2 num den - f.fractionBits) = f.leastExponent := by
    omega
  have scaled := scaleDown_value (show 0 < 2 by decide) num den f.leastExponent
  have scaled_pos := scaleDown_den_pos (show 0 < 2 by decide) num f.leastExponent hd
  have half : 2 * (scaleDown 2 num den f.leastExponent).1 <
      (scaleDown 2 num den f.leastExponent).2 := by
    have scaled_pos : (0 : ℚ) < (scaleDown 2 num den f.leastExponent).2 := by
      exact_mod_cast scaled_pos
    have power : (2 : ℚ) ^ (f.leastExponent - 1) = 2 ^ f.leastExponent / 2 :=
      zpow_sub_one₀ (by norm_num) _
    rw [power] at small
    have below : ((scaleDown 2 num den f.leastExponent).1 : ℚ) /
        (scaleDown 2 num den f.leastExponent).2 < 1 / 2 := by
      rw [scaled, Nat.cast_ofNat, div_lt_iff₀ (by positivity)]
      linarith
    rw [div_lt_div_iff₀ scaled_pos (by norm_num)] at below
    have below : ((2 * (scaleDown 2 num den f.leastExponent).1 : Nat) : ℚ) <
        (scaleDown 2 num den f.leastExponent).2 := by
      push_cast
      linarith
    exact_mod_cast below
  simp only [round, if_neg hn.ne', chosen, roundQuotient_small half, sub_self, Int.toNat_zero,
    Nat.zero_mul, Nat.zero_add, Nat.min_zero]

end Format

end Binary

namespace Decimal

open Binary (Format double scaleDown scaleDown_value scaleDown_den_pos)

/-- The number that a decimal stands for. -/
def value (d : Decimal) : ℚ := d.coefficient * 10 ^ d.exponent

theorem ratio_value (d : Decimal) : (d.ratio.1 : ℚ) / d.ratio.2 = d.value := by
  have scaled := scaleDown_value (show 0 < 10 by decide) d.coefficient 1 (-d.exponent)
  simpa [ratio, value, zpow_neg] using scaled

theorem ratio_den_pos (d : Decimal) : 0 < d.ratio.2 :=
  scaleDown_den_pos (by decide) _ _ (by decide)

theorem ratio_num_pos {d : Decimal} (h : d.coefficient ≠ 0) : 0 < d.ratio.1 := by
  unfold ratio scaleDown
  split
  · exact Nat.pos_of_ne_zero h
  · exact Nat.mul_pos (Nat.pos_of_ne_zero h) (Nat.pow_pos (by decide))

theorem value_trim (d : Decimal) : d.trim.value = d.value := by
  induction d using trim.induct with
  | case1 d zero =>
    rw [trim, dif_pos zero]
    simp [value, zero]
  | case2 d nonzero divides ih =>
    rw [trim, dif_neg nonzero, if_pos divides, ih]
    obtain ⟨n, whole⟩ := Nat.dvd_of_mod_eq_zero divides
    simp only [value, whole, Nat.mul_div_cancel_left n (show 0 < 10 by decide)]
    rw [zpow_add_one₀ (by norm_num)]
    push_cast
    ring
  | case3 d nonzero kept => rw [trim, dif_neg nonzero, if_neg kept]

theorem two_pow_le_ten_pow {a b : Nat} (h : a ≤ 3 * b) : (2 : ℚ) ^ a ≤ 10 ^ b := by
  calc (2 : ℚ) ^ a ≤ 2 ^ (3 * b) := by
        gcongr
        norm_num
    _ = 8 ^ b := by
        rw [pow_mul]
        norm_num
    _ ≤ 10 ^ b := by
        gcongr
        norm_num

/-- Beyond the reach of decimals there are only infinities. -/
theorem floorLog2_of_large {d : Decimal} (nonzero : d.coefficient ≠ 0) (large : 400 < d.exponent) :
    1026 ≤ Binary.floorLog2 d.ratio.1 d.ratio.2 := by
  have two : (1 : ℚ) < 2 := by norm_num
  obtain ⟨_, high⟩ := Binary.floorLog2_spec (ratio_num_pos nonzero) d.ratio_den_pos
  have one : (1 : ℚ) ≤ d.coefficient := by exact_mod_cast Nat.pos_of_ne_zero nonzero
  have reached : (2 : ℚ) ^ ((1027 : Nat) : Int) ≤ d.value := by
    calc (2 : ℚ) ^ ((1027 : Nat) : Int) ≤ 1 * 10 ^ ((401 : Nat) : Int) := by
          simpa only [zpow_natCast, one_mul] using two_pow_le_ten_pow (by decide)
      _ ≤ d.coefficient * 10 ^ d.exponent := by
          gcongr
          · norm_num
          · omega
  have log := (zpow_lt_zpow_iff_right₀ two).mp ((d.ratio_value ▸ reached).trans_lt high)
  omega

/-- Below the reach of decimals there is only zero. -/
theorem value_of_small {d : Decimal} (nonzero : d.coefficient ≠ 0)
    (small : d.exponent + (d.coefficient.log2 / 3 + 1 : Nat) < -400) :
    d.value < 2 ^ (-1075 : Int) := by
  have ten_pos : (0 : ℚ) < 10 ^ d.exponent := by positivity
  have bound : (d.coefficient : ℚ) < 10 ^ ((d.coefficient.log2 / 3 + 1 : Nat) : Int) := by
    obtain ⟨_, high⟩ := Binary.log2_bounds (Nat.pos_of_ne_zero nonzero)
    refine high.trans_le ?_
    rw [zpow_natCast, ← Nat.cast_succ, zpow_natCast]
    exact two_pow_le_ten_pow (by omega)
  calc d.value < 10 ^ ((d.coefficient.log2 / 3 + 1 : Nat) : Int) * 10 ^ d.exponent := by
        unfold value
        gcongr
    _ = 10 ^ (((d.coefficient.log2 / 3 + 1 : Nat) : Int) + d.exponent) :=
        (zpow_add₀ (by norm_num) _ _).symm
    _ ≤ 10 ^ (-((401 : Nat) : Int)) := by
        gcongr
        · norm_num
        · omega
    _ ≤ 2 ^ (-((1075 : Nat) : Int)) := by
        simp only [zpow_neg, zpow_natCast]
        exact inv_anti₀ (by positivity) (two_pow_le_ten_pow (by decide))

/-- What is answered out of reach is what rounding would give. -/
theorem ofDecimal_eq_round (d : Decimal) :
    double.ofDecimal d = double.round d.ratio.1 d.ratio.2 := by
  unfold Format.ofDecimal
  split
  · rename_i zero
    have none : d.ratio.1 = 0 := by
      unfold ratio scaleDown
      split <;> simp [zero]
    rw [Format.round, if_pos none]
  · rename_i nonzero
    have positive := ratio_num_pos nonzero
    split
    · rename_i large
      exact (double.round_of_large positive (floorLog2_of_large nonzero large)).symm
    · split
      · rename_i small
        refine (double.round_of_small positive d.ratio_den_pos ?_).symm
        rw [d.ratio_value]
        exact value_of_small nonzero small
      · rfl

theorem ofDecimal_congr {d d' : Decimal} (same : d.value = d'.value) :
    double.ofDecimal d = double.ofDecimal d' := by
  simp only [ofDecimal_eq_round]
  exact double.round_congr d.ratio_den_pos d'.ratio_den_pos
    ((ratio_value d).trans (same.trans (ratio_value d').symm))

theorem value_exact (f : Format) (magnitude : Nat) :
    (exact f magnitude).value = f.value magnitude := by
  unfold exact Format.value
  generalize f.significand magnitude = s
  obtain ⟨m, k⟩ := s
  dsimp only
  split
  · rename_i whole
    obtain ⟨n, rfl⟩ := Int.eq_ofNat_of_zero_le whole
    simp [value, Nat.pow_eq]
  · rename_i fractional
    obtain ⟨n, hn⟩ := Int.eq_ofNat_of_zero_le (show 0 ≤ -k by omega)
    obtain rfl : k = -(n : Int) := by omega
    have ten : (10 : ℚ) ^ n = 5 ^ n * 2 ^ n := by rw [← mul_pow]; norm_num
    simp only [value, neg_neg, Int.toNat_natCast, zpow_neg, zpow_natCast, ten]
    push_cast [Nat.pow_eq]
    field_simp

/-- The decimal that is found on a grid is accepted. -/
theorem reads_of_nearestOnGrid {reads : Decimal → Bool} {tie : Tie} {num den : Nat} {exponent : Int}
    {d : Decimal} (found : nearestOnGrid reads tie num den exponent = some d) : reads d = true := by
  have chosen : ∀ (low wins high : Bool) (x y : Decimal),
      (if low && (wins || !high) then some x else if high then some y else none) = some d →
        low = true ∧ x = d ∨ high = true ∧ y = d := by
    intro low wins high x y
    cases low <;> cases high <;> cases wins <;> simp +contextual
  rcases chosen _ _ _ _ _ found with ⟨accepted, rfl⟩ | ⟨accepted, rfl⟩
  · exact accepted
  · exact accepted

/-- The shortest decimal for a magnitude is read as that magnitude. -/
theorem ofDecimal_shortest (tie : Tie) {magnitude : Nat} (finite : magnitude ≤ double.infinity) :
    double.ofDecimal (shortest double tie magnitude) = magnitude := by
  unfold shortest
  dsimp only
  rw [ofDecimal_congr (value_trim _)]
  cases found : digitCounts.findSome? _ with
  | some d =>
    obtain ⟨count, _, here⟩ := List.exists_of_findSome?_eq_some found
    simpa using reads_of_nearestOnGrid here
  | none =>
    simp only [Option.getD_none, ofDecimal_eq_round]
    refine double.round_value finite (ratio_den_pos _) ?_
    rw [ratio_value, value_exact]

end Decimal

end OperatorGraph
