import Mathlib.Algebra.Order.Field.Power
import Mathlib.Data.Rat.Cast.Order
import Mathlib.Tactic.FieldSimp
import Mathlib.Tactic.Linarith
import Mathlib.Tactic.Ring
import OperatorGraph.Binary.Format

/-!
Rounding of quotients to a binary format. A quotient that a magnitude of the format stands for is
rounded to that magnitude.
-/

namespace OperatorGraph.Binary

theorem scaleDown_value {base : Nat} (positive : 0 < base) (num den : Nat) (shift : Int) :
    ((scaleDown base num den shift).1 : ℚ) / (scaleDown base num den shift).2 =
      num / den / (base : ℚ) ^ shift := by
  have base_ne : (base : ℚ) ≠ 0 := by exact_mod_cast positive.ne'
  unfold scaleDown
  split
  · rename_i up
    obtain ⟨k, rfl⟩ := Int.eq_ofNat_of_zero_le up
    push_cast [Nat.pow_eq, Int.toNat_natCast]
    rw [zpow_natCast, div_div]
  · rename_i down
    obtain ⟨k, hk⟩ := Int.eq_ofNat_of_zero_le (show 0 ≤ -shift by omega)
    rw [hk, show shift = -(k : Int) by omega]
    push_cast [Nat.pow_eq, Int.toNat_natCast]
    rw [zpow_neg, zpow_natCast, div_inv_eq_mul]
    ring

theorem scaleDown_den_pos {base den : Nat} (positive : 0 < base) (num : Nat) (shift : Int)
    (h : 0 < den) :
    0 < (scaleDown base num den shift).2 := by
  unfold scaleDown
  split
  · exact Nat.mul_pos h (Nat.pow_pos positive)
  · exact h

/-- A natural number lies between the powers of two around it. -/
theorem log2_bounds {n : Nat} (h : 0 < n) :
    (2 : ℚ) ^ (n.log2 : Int) ≤ n ∧ (n : ℚ) < 2 ^ ((n.log2 : Int) + 1) := by
  constructor
  · rw [zpow_natCast]
    exact_mod_cast Nat.log2_self_le h.ne'
  · rw [← Nat.cast_succ, zpow_natCast]
    exact_mod_cast Nat.lt_log2_self

theorem floorLog2_spec {num den : Nat} (hn : 0 < num) (hd : 0 < den) :
    (2 : ℚ) ^ floorLog2 num den ≤ num / den ∧ (num : ℚ) / den < 2 ^ (floorLog2 num den + 1) := by
  obtain ⟨num_low, num_high⟩ := log2_bounds hn
  obtain ⟨den_low, den_high⟩ := log2_bounds hd
  have den_pos : (0 : ℚ) < den := by exact_mod_cast hd
  have two : (2 : ℚ) ≠ 0 := by norm_num
  generalize guessed : ((num.log2 : Int) - den.log2) = guess
  have low : (2 : ℚ) ^ (guess - 1) < num / den := by
    rw [lt_div_iff₀ den_pos]
    calc (2 : ℚ) ^ (guess - 1) * den < 2 ^ (guess - 1) * 2 ^ ((den.log2 : Int) + 1) := by
          gcongr
      _ = 2 ^ (num.log2 : Int) := by
          rw [← zpow_add₀ two]
          congr 1
          omega
      _ ≤ num := num_low
  have high : (num : ℚ) / den < 2 ^ (guess + 1) := by
    rw [div_lt_iff₀ den_pos]
    calc (num : ℚ) < 2 ^ ((num.log2 : Int) + 1) := num_high
      _ = 2 ^ (guess + 1) * 2 ^ (den.log2 : Int) := by
          rw [← zpow_add₀ two]
          congr 1
          omega
      _ ≤ 2 ^ (guess + 1) * den := by gcongr
  have scaled := scaleDown_value (show 0 < 2 by decide) num den guess
  have scaled_pos := scaleDown_den_pos (show 0 < 2 by decide) num guess hd
  have defn : floorLog2 num den =
      if (scaleDown 2 num den guess).1 < (scaleDown 2 num den guess).2 then guess - 1
      else guess := by
    simp only [floorLog2, guessed]
  have below_iff : (scaleDown 2 num den guess).1 < (scaleDown 2 num den guess).2 ↔
      (num : ℚ) / den < 2 ^ guess := by
    have scaled_pos : (0 : ℚ) < (scaleDown 2 num den guess).2 := by exact_mod_cast scaled_pos
    rw [← Nat.cast_lt (α := ℚ), ← div_lt_one₀ scaled_pos, scaled, div_lt_one₀ (by positivity)]
    norm_cast
  rw [defn]
  split
  · rename_i below
    refine ⟨low.le, ?_⟩
    rw [sub_add_cancel]
    exact below_iff.mp below
  · rename_i above
    exact ⟨not_lt.mp fun below => above (below_iff.mpr below), high⟩

theorem floorLog2_eq {num den : Nat} (hn : 0 < num) (hd : 0 < den) {e : Int}
    (low : (2 : ℚ) ^ e ≤ num / den) (high : (num : ℚ) / den < 2 ^ (e + 1)) :
    floorLog2 num den = e := by
  obtain ⟨low', high'⟩ := floorLog2_spec hn hd
  have below := (zpow_lt_zpow_iff_right₀ (by norm_num : (1 : ℚ) < 2)).mp (low.trans_lt high')
  have above := (zpow_lt_zpow_iff_right₀ (by norm_num : (1 : ℚ) < 2)).mp (low'.trans_lt high)
  omega

theorem roundQuotient_exact {den : Nat} (h : 0 < den) (quotient : Nat) :
    roundQuotient (quotient * den) den = quotient := by
  simp [roundQuotient, Nat.mul_div_cancel _ h, h]

namespace Format

variable (f : Format)

/-- The number that a finite magnitude stands for. -/
def value (magnitude : Nat) : ℚ :=
  ((f.significand magnitude).1 : ℚ) * 2 ^ (f.significand magnitude).2

theorem ratio_value (magnitude : Nat) :
    ((f.ratio magnitude).1 : ℚ) / (f.ratio magnitude).2 = f.value magnitude := by
  have scaled := scaleDown_value (show 0 < 2 by decide) (f.significand magnitude).1 1
    (-(f.significand magnitude).2)
  simpa [ratio, value, zpow_neg] using scaled

theorem ratio_den_pos (magnitude : Nat) : 0 < (f.ratio magnitude).2 :=
  scaleDown_den_pos (by decide) _ _ (by decide)

/-- A magnitude is put together from its significand, which is at least `fractions` unless the
exponent is the least. -/
theorem significand_spec (magnitude : Nat) :
    let s := f.significand magnitude
    f.leastExponent ≤ s.2 ∧ s.1 < 2 * f.fractions ∧ (s.2 = f.leastExponent ∨ f.fractions ≤ s.1) ∧
      (s.2 - f.leastExponent).toNat * f.fractions + s.1 = magnitude := by
  have split := Nat.div_add_mod magnitude f.fractions
  have small := Nat.mod_lt magnitude f.fractions_pos
  dsimp only [significand]
  split
  · rename_i zero
    rw [zero, Nat.mul_zero, Nat.zero_add] at split
    refine ⟨le_refl _, by omega, .inl rfl, ?_⟩
    simpa using split
  · rename_i positive
    obtain ⟨exponent, hexponent⟩ := Nat.exists_eq_succ_of_ne_zero positive
    generalize magnitude % f.fractions = fraction at *
    rw [hexponent] at split ⊢
    have shift : (f.leastExponent + ((exponent.succ - 1 : Nat) : Int) - f.leastExponent).toNat =
        exponent := by omega
    rw [shift]
    refine ⟨by omega, by omega, .inr (by omega), ?_⟩
    rw [← split, Nat.mul_succ, Nat.mul_comm]
    omega

theorem two_pow_add_fractionBits (k : Int) :
    (2 : ℚ) ^ (k + f.fractionBits) = f.fractions * 2 ^ k := by
  rw [zpow_add₀ two_ne_zero, zpow_natCast, mul_comm]
  simp [fractions, Nat.pow_eq]

/-- The exponent that rounding chooses for a number of the format is that of its significand. -/
theorem exponent_of_value {num den m : Nat} {k : Int} (hn : 0 < num) (hd : 0 < den)
    (exact : (num : ℚ) / den = m * 2 ^ k) (least : f.leastExponent ≤ k) (small : m < 2 * f.fractions)
    (normal : k = f.leastExponent ∨ f.fractions ≤ m) :
    max f.leastExponent (floorLog2 num den - f.fractionBits) = k := by
  have two : (2 : ℚ) ≠ 0 := by norm_num
  have weight := f.two_pow_add_fractionBits k
  by_cases full : f.fractions ≤ m
  · have low : (2 : ℚ) ^ (k + f.fractionBits) ≤ num / den := by
      rw [exact, weight]
      gcongr
    have high : (num : ℚ) / den < 2 ^ (k + f.fractionBits + 1) := by
      have small : (m : ℚ) < 2 * f.fractions := by exact_mod_cast small
      calc (num : ℚ) / den = m * 2 ^ k := exact
        _ < 2 * f.fractions * 2 ^ k := by gcongr
        _ = 2 ^ (k + f.fractionBits + 1) := by
            rw [zpow_add_one₀ two, weight]
            ring
    rw [floorLog2_eq hn hd low high]
    omega
  · have least_is : k = f.leastExponent := normal.resolve_right full
    obtain ⟨low, _⟩ := floorLog2_spec hn hd
    have below : (2 : ℚ) ^ floorLog2 num den < 2 ^ (k + f.fractionBits) := by
      have fraction : (m : ℚ) < f.fractions := by exact_mod_cast not_le.mp full
      calc (2 : ℚ) ^ floorLog2 num den ≤ m * 2 ^ k := exact ▸ low
        _ < f.fractions * 2 ^ k := by gcongr
        _ = 2 ^ (k + f.fractionBits) := weight.symm
    have below := (zpow_lt_zpow_iff_right₀ (by norm_num : (1 : ℚ) < 2)).mp below
    omega

/-- Rounding is exact on the numbers of the format. -/
theorem round_value {num den magnitude : Nat} (finite : magnitude ≤ f.infinity) (hd : 0 < den)
    (exact : (num : ℚ) / den = f.value magnitude) : f.round num den = magnitude := by
  obtain ⟨least, small, normal, assembled⟩ := f.significand_spec magnitude
  have den_ne : (den : ℚ) ≠ 0 := by exact_mod_cast hd.ne'
  have power_ne (k : Int) : (2 : ℚ) ^ k ≠ 0 := zpow_ne_zero k (by norm_num)
  unfold value at exact
  generalize (f.significand magnitude).1 = m at *
  generalize (f.significand magnitude).2 = k at *
  unfold round
  split
  · rename_i zero
    have nothing : m = 0 := by
      have product : (m : ℚ) * 2 ^ k = 0 := by rw [← exact, zero]; simp
      exact_mod_cast (mul_eq_zero.mp product).resolve_right (power_ne k)
    have pos := f.fractions_pos
    have least_is : k = f.leastExponent := normal.resolve_right (by omega)
    simpa [nothing, least_is] using assembled
  · rename_i nonzero
    have chosen := f.exponent_of_value (Nat.pos_of_ne_zero nonzero) hd exact least small normal
    have scaled := scaleDown_value (show 0 < 2 by decide) num den k
    have scaled_pos := scaleDown_den_pos (show 0 < 2 by decide) num k hd
    have whole : (scaleDown 2 num den k).1 = m * (scaleDown 2 num den k).2 := by
      have scaled_ne : ((scaleDown 2 num den k).2 : ℚ) ≠ 0 := by exact_mod_cast scaled_pos.ne'
      rw [exact, Nat.cast_ofNat, mul_div_cancel_right₀ _ (power_ne k), div_eq_iff scaled_ne] at scaled
      exact_mod_cast scaled
    simp only [chosen, whole, roundQuotient_exact scaled_pos, assembled]
    exact min_eq_right finite

end Format

end OperatorGraph.Binary
