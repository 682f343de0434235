import OperatorGraph.Proofs.Binary.Conversion
import OperatorGraph.Proofs.Decimal.Value

/-!
The range of a binary format. A number is rounded to infinity from half a unit beyond the largest
finite number on, and not before.
-/

namespace OperatorGraph.Binary

theorem le_roundQuotient {num den n : Nat} (h : 0 < den) (least : n * den ≤ num) :
    n ≤ roundQuotient num den := by
  have whole := (Nat.le_div_iff_mul_le h).mpr least
  dsimp only [roundQuotient]
  split
  · exact whole
  · split <;> omega

theorem roundQuotient_le {num den n : Nat} (below : num < n * den) : roundQuotient num den ≤ n := by
  have whole := Nat.div_lt_of_lt_mul (Nat.mul_comm n den ▸ below)
  dsimp only [roundQuotient]
  split
  · exact whole.le
  · split <;> omega

/-- Half below an even integer a quotient is rounded up to it. -/
theorem roundQuotient_ge_iff {num den n : Nat} (h : 0 < den) (positive : 0 < n) :
    2 * n ≤ roundQuotient num den ↔ (4 * n - 1) * den ≤ 2 * num := by
  have split := Nat.div_add_mod num den
  have small := Nat.mod_lt num h
  have parts : 2 * num = den * (2 * (num / den)) + 2 * (num % den) := by
    rw [Nat.mul_left_comm]
    omega
  rcases lt_trichotomy (num / den) (2 * n - 1) with below | last | above
  · have rounded : roundQuotient num den ≤ num / den + 1 :=
      roundQuotient_le (by rw [Nat.succ_mul, Nat.mul_comm]; omega)
    have far : den * (2 * (num / den)) + 3 * den ≤ (4 * n - 1) * den := by
      rw [Nat.mul_comm den, ← Nat.add_mul]
      exact Nat.mul_le_mul_right den (by omega)
    omega
  · have near : (4 * n - 1) * den = den * (2 * (num / den)) + den := by
      rw [Nat.mul_comm den, ← Nat.succ_mul]
      congr 1
      omega
    rw [near, parts, Nat.add_le_add_iff_left]
    dsimp only [roundQuotient]
    split
    · omega
    · split <;> omega
  · have rounded := le_roundQuotient h (Nat.div_mul_le_self num den)
    have far : (4 * n - 1) * den ≤ den * (2 * (num / den)) := by
      rw [Nat.mul_comm den]
      exact Nat.mul_le_mul_right den (by omega)
    omega

namespace Format

variable (f : Format)

/-- The exponent of the unit in the last place of the largest finite numbers. -/
def topExponent : Int := f.leastExponent + (Nat.pow 2 f.exponentBits - 3 : Int)

/-- The least number that is rounded to infinity. -/
def overflow : ℚ := (2 * f.fractions - 1 / 2) * 2 ^ f.topExponent

theorem one_le_fractions : (1 : ℚ) ≤ f.fractions := by exact_mod_cast f.fractions_pos

theorem overflow_pos : 0 < f.overflow := by
  have := f.one_le_fractions
  exact mul_pos (by linarith) (by positivity)

variable {f} in
theorem lt_overflow {k : Int} {x : ℚ} (before : k < f.topExponent) (below : x < 2 * f.fractions) :
    x * 2 ^ k < f.overflow := by
  have := f.one_le_fractions
  calc x * 2 ^ k < 2 * f.fractions * 2 ^ k := by gcongr
    _ = f.fractions * 2 ^ (k + 1) := by
        rw [zpow_add_one₀ two_ne_zero]
        ring
    _ ≤ f.fractions * 2 ^ f.topExponent :=
        mul_le_mul_of_nonneg_left (zpow_le_zpow_right₀ one_le_two before) (by linarith)
    _ < f.overflow := mul_lt_mul_of_pos_right (by linarith) (by positivity)

variable {f} in
theorem overflow_le {k : Int} {x : ℚ} (after : f.topExponent < k) (reached : f.fractions ≤ x) :
    f.overflow ≤ x * 2 ^ k := by
  have := f.one_le_fractions
  have power : (0 : ℚ) < 2 ^ f.topExponent := by positivity
  calc f.overflow ≤ 2 * f.fractions * 2 ^ f.topExponent :=
        mul_le_mul_of_nonneg_right (by linarith) power.le
    _ = f.fractions * 2 ^ (f.topExponent + 1) := by
        rw [zpow_add_one₀ two_ne_zero]
        ring
    _ ≤ f.fractions * 2 ^ k :=
        mul_le_mul_of_nonneg_left (zpow_le_zpow_right₀ one_le_two after) (by linarith)
    _ ≤ x * 2 ^ k := by gcongr

/-- A quotient is rounded in the unit of the last place: below twice the fractions, and from these
on unless the unit is the least. -/
theorem round_unit {num den : Nat} (hn : 0 < num) (hd : 0 < den) :
    ∃ (k : Int) (n d : Nat), f.leastExponent ≤ k ∧ 0 < d ∧ (num : ℚ) / den = n / d * 2 ^ k ∧
      n < 2 * f.fractions * d ∧ (f.leastExponent < k → f.fractions * d ≤ n) ∧
      f.round num den =
        min f.infinity ((k - f.leastExponent).toNat * f.fractions + roundQuotient n d) := by
  obtain ⟨low, high⟩ := floorLog2_spec hn hd
  let k := max f.leastExponent (floorLog2 num den - f.fractionBits)
  have scaled := scaleDown_value (show 0 < 2 by decide) num den k
  have scaled_pos := scaleDown_den_pos (show 0 < 2 by decide) num k hd
  have cast_pos : (0 : ℚ) < (scaleDown 2 num den k).2 := by exact_mod_cast scaled_pos
  have power : (0 : ℚ) < 2 ^ k := by positivity
  rw [Nat.cast_ofNat, eq_div_iff power.ne'] at scaled
  refine ⟨k, (scaleDown 2 num den k).1, (scaleDown 2 num den k).2, le_max_left _ _, scaled_pos,
    scaled.symm, ?_, fun above => ?_, ?_⟩
  · have below : ((scaleDown 2 num den k).1 : ℚ) / (scaleDown 2 num den k).2 <
        2 * f.fractions := by
      refine lt_of_mul_lt_mul_right ?_ power.le
      calc _ = (num : ℚ) / den := scaled
        _ < 2 ^ (floorLog2 num den + 1) := high
        _ ≤ 2 ^ (k + f.fractionBits + 1) := by
            gcongr
            · norm_num
            · omega
        _ = 2 * f.fractions * 2 ^ k := by
            rw [zpow_add_one₀ two_ne_zero, f.two_pow_add_fractionBits]
            ring
    rw [div_lt_iff₀ cast_pos] at below
    exact_mod_cast below
  · have reached : (f.fractions : ℚ) ≤
        (scaleDown 2 num den k).1 / (scaleDown 2 num den k).2 := by
      refine le_of_mul_le_mul_right ?_ power
      calc (f.fractions : ℚ) * 2 ^ k = 2 ^ floorLog2 num den := by
            rw [← f.two_pow_add_fractionBits]
            congr 1
            omega
        _ ≤ num / den := low
        _ = _ := scaled.symm
    rw [le_div_iff₀ cast_pos] at reached
    exact_mod_cast reached
  · rw [round, if_neg hn.ne']

/-- A quotient is rounded to infinity exactly from the bound on. -/
theorem round_eq_infinity_iff (wide : 2 ≤ f.exponentBits) {num den : Nat} (hd : 0 < den) :
    f.round num den = f.infinity ↔ f.overflow ≤ num / den := by
  have exponents : 4 ≤ Nat.pow 2 f.exponentBits := Nat.pow_le_pow_right Nat.two_pos wide
  have fractions := f.fractions_pos
  rcases num.eq_zero_or_pos with rfl | hn
  · have positive : 0 < f.infinity := Nat.mul_pos (by omega) fractions
    simp [round, positive.ne, f.overflow_pos]
  obtain ⟨k, n, d, least, d_pos, value, below, reached, rounded⟩ := f.round_unit hn hd
  have cast_pos : (0 : ℚ) < d := by exact_mod_cast d_pos
  obtain ⟨top, is_top⟩ := Nat.exists_eq_add_of_le' ((show 3 ≤ 4 by decide).trans exponents)
  have infinity : f.infinity = (top + 2) * f.fractions := by rw [Format.infinity, is_top]; rfl
  have exponent : f.topExponent = f.leastExponent + top := by rw [topExponent, is_top]; omega
  obtain ⟨shift, is_shift⟩ := Int.eq_ofNat_of_zero_le (show 0 ≤ k - f.leastExponent by omega)
  rw [rounded, value, min_eq_left_iff, is_shift, Int.toNat_natCast, infinity]
  rcases lt_trichotomy shift top with before | rfl | after
  · have small := roundQuotient_le below
    have short : (shift + 1) * f.fractions ≤ top * f.fractions := Nat.mul_le_mul_right _ before
    have below : (n : ℚ) / d < 2 * f.fractions := by
      rw [div_lt_iff₀ cast_pos]
      exact_mod_cast below
    simp only [Nat.add_mul] at short ⊢
    exact iff_of_false (by omega) (not_le.mpr (lt_overflow (by omega) below))
  · have power : (0 : ℚ) < 2 ^ f.topExponent := by positivity
    have cast : (((4 * f.fractions - 1) * d : Nat) : ℚ) = (4 * f.fractions - 1) * d := by
      push_cast [show 1 ≤ 4 * f.fractions by omega]
      rfl
    rw [show k = f.topExponent by omega, overflow, mul_le_mul_iff_of_pos_right power,
      le_div_iff₀ cast_pos, Nat.add_mul, Nat.add_le_add_iff_left,
      roundQuotient_ge_iff d_pos fractions, ← Nat.cast_le (α := ℚ), cast]
    push_cast
    constructor
    · intro h
      linarith
    · intro h
      linarith
  · have enough := le_roundQuotient d_pos (reached (by omega))
    have long : (top + 1) * f.fractions ≤ shift * f.fractions := Nat.mul_le_mul_right _ after
    have reached : (f.fractions : ℚ) ≤ n / d := by
      rw [le_div_iff₀ cast_pos]
      exact_mod_cast reached (by omega)
    simp only [Nat.add_mul] at long ⊢
    exact iff_of_true (by omega) (overflow_le (by omega) reached)

theorem single_overflow : single.overflow = 2 ^ 128 - 2 ^ 103 := by
  norm_num [overflow, topExponent, single, fractions, leastExponent]

theorem two_pow_le_double_overflow : (2 : ℚ) ^ 64 ≤ double.overflow := by
  have exponent : double.topExponent = 971 := rfl
  have := double.one_le_fractions
  rw [overflow, exponent]
  calc (2 : ℚ) ^ 64 = 1 * 2 ^ (64 : Int) := by norm_num
    _ ≤ (2 * double.fractions - 1 / 2) * 2 ^ (971 : Int) := by
        have large : (2 : ℚ) ^ (64 : Int) ≤ 2 ^ (971 : Int) :=
          zpow_le_zpow_right₀ one_le_two (by decide)
        exact mul_le_mul (by linarith) large (by positivity) (by linarith)

end Format

namespace Number

variable {f g : Format}

theorem isFinite_ofMagnitude {negative : Bool} {magnitude : Nat} (h : magnitude ≤ f.infinity) :
    (ofMagnitude negative magnitude : Number f).isFinite = true ↔ magnitude ≠ f.infinity := by
  rw [isFinite, ofMagnitude_magnitude (h.trans_lt infinity_lt_magnitudes), decide_eq_true_eq]
  exact lt_iff_le_and_ne.trans (and_iff_right h)

@[simp] theorem isFinite_infinity (negative : Bool) :
    (infinity negative : Number f).isFinite = false := by
  rw [infinity, isFinite, ofMagnitude_magnitude infinity_lt_magnitudes]
  simp

theorem isFinite_nan (quiet : 0 < f.fractionBits) (negative : Bool) :
    (nan negative : Number f).isFinite = false := by
  have whole := f.infinity_add_fractions
  have half : Nat.pow 2 (f.fractionBits - 1) < f.fractions :=
    Nat.pow_lt_pow_right (by decide) (by omega)
  rw [nan, isFinite, ofMagnitude_magnitude (by omega)]
  simp

theorem isFinite_round (wide : 2 ≤ f.exponentBits) {num den : Nat} (hd : 0 < den)
    (negative : Bool) :
    (ofMagnitude negative (f.round num den) : Number f).isFinite = true ↔
      (num : ℚ) / den < f.overflow := by
  rw [isFinite_ofMagnitude (f.round_le_infinity num den), ne_eq, f.round_eq_infinity_iff wide hd,
    not_le]

theorem isFinite_ofInt_iff (wide : 2 ≤ f.exponentBits) (n : Int) :
    (ofInt n : Number f).isFinite = true ↔ (n.natAbs : ℚ) < f.overflow := by
  rw [ofInt, isFinite_round wide Nat.one_pos, Nat.cast_one, div_one]

/-- A finite number stays finite in a format if it lies within its range. -/
theorem isFinite_convert_iff (wide : 2 ≤ g.exponentBits) {x : Number f} (finite : x.isFinite = true) :
    (x.convert g).isFinite = true ↔ f.value x.magnitude < g.overflow := by
  have finite : x.magnitude < f.infinity := by simpa [isFinite] using finite
  rw [isFinite, (convert_of_finite finite).2, decide_eq_true_eq,
    (g.round_le_infinity _ _).lt_iff_ne, ne_eq,
    g.round_eq_infinity_iff wide (f.ratio_den_pos _), f.ratio_value, not_le]

/-- What is not finite stays so. -/
theorem isFinite_of_convert (quiet : 0 < g.fractionBits) {x : Number f}
    (finite : (x.convert g).isFinite = true) : x.isFinite = true := by
  rcases lt_trichotomy x.magnitude f.infinity with below | infinite | nan
  · simpa [isFinite] using below
  · rw [convert_of_infinite infinite, isFinite_infinity] at finite
    cases finite
  · rw [isFinite, (convert_of_nan quiet nan).2] at finite
    simp at finite

end Number

end OperatorGraph.Binary

namespace OperatorGraph

open Binary

theorem Binary32.isFinite_widen (x : Binary32) : x.widen.isFinite = x.isFinite := by
  refine Bool.eq_iff_iff.mpr ⟨Number.isFinite_of_convert (by decide), fun finite => ?_⟩
  have below : x.magnitude < single.infinity := by simpa [Number.isFinite] using finite
  obtain ⟨wide, wide_finite, same⟩ := Format.value_double below
  have rounded := double.round_value wide_finite.le (single.ratio_den_pos _)
    ((single.ratio_value _).trans same.symm)
  rw [widen, Number.isFinite, (Number.convert_of_finite below).2, rounded, decide_eq_true_eq]
  exact wide_finite

/-- The number nearest to a decimal is finite if the decimal lies within the range. -/
theorem Decimal.isFinite_ofDecimal_iff (negative : Bool) (d : Decimal) :
    (Number.ofDecimal negative d : Binary32).isFinite = true ↔ d.value < single.overflow := by
  unfold Number.ofDecimal Format.ofDecimal
  rw [Format.single_overflow]
  have zero : (Number.ofMagnitude negative 0 : Binary32).isFinite = true := by
    cases negative <;> decide
  split
  · rename_i nothing
    refine iff_of_true zero ?_
    rw [value, nothing]
    norm_num
  · rename_i nonzero
    split
    · rename_i large
      obtain ⟨low, _⟩ := floorLog2_spec (ratio_num_pos nonzero) d.ratio_den_pos
      rw [d.ratio_value] at low
      have infinite : (Number.ofMagnitude negative single.infinity : Binary32).isFinite = false :=
        Number.isFinite_infinity negative
      refine iff_of_false (infinite ▸ Bool.false_ne_true) (not_lt.mpr ?_)
      calc (2 : ℚ) ^ 128 - 2 ^ 103 ≤ 2 ^ (128 : Int) := by norm_num
        _ ≤ 2 ^ floorLog2 d.ratio.1 d.ratio.2 :=
          zpow_le_zpow_right₀ one_le_two
            ((show (128 : Int) ≤ 1026 by decide).trans (floorLog2_of_large nonzero large))
        _ ≤ d.value := low
    · split
      · rename_i small
        refine iff_of_true zero ?_
        calc d.value < 2 ^ (-1075 : Int) := value_of_small nonzero small
          _ ≤ 2 ^ (0 : Int) := zpow_le_zpow_right₀ one_le_two (by decide)
          _ < 2 ^ 128 - 2 ^ 103 := by norm_num
      · rw [Number.isFinite_round (by decide) d.ratio_den_pos, d.ratio_value,
          Format.single_overflow]

end OperatorGraph
