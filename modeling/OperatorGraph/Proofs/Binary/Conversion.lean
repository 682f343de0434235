import Mathlib.Tactic.NormNum
import OperatorGraph.Binary.Number
import OperatorGraph.Proofs.Binary.Rounding

/-!
Conversions between single and double precision. Widening is exact, so narrowing undoes it, but
for the payload of a NaN, which turns quiet on the first conversion and then stays as it is.
-/

namespace OperatorGraph.Binary

namespace Format

variable (f : Format)

theorem infinity_add_fractions : f.infinity + f.fractions = f.magnitudes := by
  have one : 1 ≤ Nat.pow 2 f.exponentBits := Nat.two_pow_pos _
  calc (Nat.pow 2 f.exponentBits - 1) * f.fractions + f.fractions
      = (Nat.pow 2 f.exponentBits - 1 + 1) * f.fractions := (Nat.succ_mul _ _).symm
    _ = Nat.pow 2 f.exponentBits * f.fractions := by rw [Nat.sub_add_cancel one]
    _ = f.magnitudes := by simp [fractions, magnitudes, Nat.pow_add, Nat.mul_comm]

theorem round_le_infinity (num den : Nat) : f.round num den ≤ f.infinity := by
  unfold round
  split
  · exact Nat.zero_le _
  · exact Nat.min_le_left _ _

/-- A significand is that of the magnitude which is put together from it. -/
theorem significand_assemble {m : Nat} {k : Int} (least : f.leastExponent ≤ k)
    (full : f.fractions ≤ m) (small : m < 2 * f.fractions) :
    f.significand ((k - f.leastExponent).toNat * f.fractions + m) = (m, k) := by
  have positive := f.fractions_pos
  obtain ⟨fraction, rfl⟩ := Nat.exists_eq_add_of_le full
  have fraction_small : fraction < f.fractions := by omega
  generalize exponent_is : (k - f.leastExponent).toNat = exponent
  have arranged : exponent * f.fractions + (f.fractions + fraction) =
      fraction + f.fractions * (exponent + 1) := by ring
  have quotient : (exponent * f.fractions + (f.fractions + fraction)) / f.fractions =
      exponent + 1 := by
    rw [arranged, Nat.add_mul_div_left _ _ positive, Nat.div_eq_of_lt fraction_small, Nat.zero_add]
  have remainder : (exponent * f.fractions + (f.fractions + fraction)) % f.fractions =
      fraction := by
    rw [arranged, Nat.add_mul_mod_self_left, Nat.mod_eq_of_lt fraction_small]
  simp only [significand, quotient, remainder, Nat.add_one_ne_zero, if_false, Prod.mk.injEq,
    true_and]
  omega

/-- Every finite number of single precision is one of double precision. -/
theorem value_double {magnitude : Nat} (finite : magnitude < single.infinity) :
    ∃ wide, wide < double.infinity ∧ double.value wide = single.value magnitude := by
  obtain ⟨least, small, _, assembled⟩ := single.significand_spec magnitude
  have value_eq : single.value magnitude =
      (single.significand magnitude).1 * 2 ^ (single.significand magnitude).2 := rfl
  rw [value_eq]
  generalize (single.significand magnitude).1 = m at *
  generalize (single.significand magnitude).2 = k at *
  have single_fractions : single.fractions = 2 ^ 23 := rfl
  have single_infinity : single.infinity = 255 * 2 ^ 23 := rfl
  have single_least : single.leastExponent = -149 := rfl
  have double_fractions : double.fractions = 2 ^ 52 := rfl
  have double_infinity : double.infinity = 2047 * 2 ^ 52 := rfl
  have double_least : double.leastExponent = -1074 := rfl
  rw [single_fractions] at small assembled
  rw [single_infinity] at finite
  rw [single_least] at least assembled
  rcases Nat.eq_zero_or_pos m with rfl | positive
  · refine ⟨0, by decide, ?_⟩
    simp [value, significand]
  · -- the leading bit moves to the place that it has in double precision
    have low := Nat.log2_self_le positive.ne'
    have high : m < 2 ^ (m.log2 + 1) := Nat.lt_log2_self
    have bits : m.log2 ≤ 23 := by
      have : m.log2 < 24 := (Nat.log2_lt positive.ne').mpr (by omega)
      omega
    obtain ⟨shift, hshift⟩ : ∃ shift, m.log2 + shift = 52 := ⟨52 - m.log2, by omega⟩
    have full : 2 ^ 52 ≤ m * 2 ^ shift := by
      rw [← hshift, Nat.pow_add]
      exact Nat.mul_le_mul_right _ low
    have below : m * 2 ^ shift < 2 * 2 ^ 52 := by
      rw [← hshift, ← Nat.pow_succ', ← Nat.succ_add, Nat.pow_add]
      exact Nat.mul_lt_mul_of_pos_right high (Nat.two_pow_pos _)
    have significand := double.significand_assemble (m := m * 2 ^ shift) (k := k - shift)
      (by omega) (by omega) (by omega)
    refine ⟨(k - shift - double.leastExponent).toNat * double.fractions + m * 2 ^ shift, ?_, ?_⟩
    · rw [double_fractions, double_infinity, double_least]
      omega
    · have two : (2 : ℚ) ≠ 0 := by norm_num
      simp only [value, significand]
      push_cast
      rw [zpow_sub₀ two, zpow_natCast]
      field_simp

end Format

namespace Number

variable {f g : Format}

theorem ofMagnitude_magnitude {negative : Bool} {magnitude : Nat} (h : magnitude < f.magnitudes) :
    (ofMagnitude negative magnitude : Number f).magnitude = magnitude := Nat.mod_eq_of_lt h

theorem infinity_lt_magnitudes : f.infinity < f.magnitudes := by
  have := f.infinity_add_fractions
  have := f.fractions_pos
  omega

theorem ext_magnitude {x y : Number f} (sign : x.negative = y.negative)
    (magnitude : x.magnitude = y.magnitude) : x = y := by
  cases x
  cases y
  simp_all

theorem bits_lt (x : Number f) : x.bits < 2 * f.magnitudes := by
  have := x.bounded
  unfold bits
  split <;> omega

theorem ofBits_bits (x : Number f) : ofBits x.bits = x := by
  have pos := f.magnitudes_pos
  have bounded := x.bounded
  apply ext_magnitude
  · cases sign : x.negative with
    | true =>
      have quotient : x.bits / f.magnitudes = 1 := by
        rw [bits, sign, if_pos rfl, Nat.add_div_left _ pos, Nat.div_eq_of_lt bounded]
      simp [ofBits, ofMagnitude, quotient]
    | false =>
      have quotient : x.bits / f.magnitudes = 0 := by
        rw [bits, sign, if_neg Bool.false_ne_true, Nat.zero_add, Nat.div_eq_of_lt bounded]
      simp [ofBits, ofMagnitude, quotient]
  · change x.bits % f.magnitudes = x.magnitude
    unfold bits
    split
    · rw [Nat.add_mod_left, Nat.mod_eq_of_lt bounded]
    · rw [Nat.zero_add, Nat.mod_eq_of_lt bounded]

/-- A number that is not a NaN goes to the nearest one; infinity rounds to itself. -/
theorem convert_of_finite {x : Number f} (finite : x.magnitude < f.infinity) :
    (x.convert g).negative = x.negative ∧
      (x.convert g).magnitude = g.round (f.ratio x.magnitude).1 (f.ratio x.magnitude).2 := by
  have ordinary : x.isNaN = false := by simpa [isNaN] using finite.le
  have bounded : x.isInfinite = false := by simpa [isInfinite] using finite.ne
  simp only [convert, ordinary, bounded, Bool.false_eq_true, if_false]
  exact ⟨rfl, ofMagnitude_magnitude ((g.round_le_infinity _ _).trans_lt infinity_lt_magnitudes)⟩

theorem convert_of_infinite {x : Number f} (infinite : x.magnitude = f.infinity) :
    x.convert g = infinity x.negative := by
  simp [convert, isNaN, isInfinite, infinite]

/-- The payload of a NaN after a conversion. -/
def quietPayload (f g : Format) (payload : Nat) : Nat :=
  payload * g.fractions / f.fractions ||| Nat.pow 2 (g.fractionBits - 1)

theorem quietPayload_lt (quiet : 0 < g.fractionBits) {payload : Nat} (h : payload < f.fractions) :
    quietPayload f g payload < g.fractions := by
  refine Nat.or_lt_two_pow ?_ (Nat.pow_lt_pow_right (by decide) (by omega))
  rw [Nat.div_lt_iff_lt_mul f.fractions_pos, Nat.mul_comm]
  exact Nat.mul_lt_mul_of_pos_left h g.fractions_pos

theorem quietPayload_pos (payload : Nat) : 0 < quietPayload f g payload :=
  (Nat.two_pow_pos _).trans_le Nat.right_le_or

theorem convert_of_nan (quiet : 0 < g.fractionBits) {x : Number f} (h : f.infinity < x.magnitude) :
    (x.convert g).negative = x.negative ∧
      (x.convert g).magnitude = g.infinity + quietPayload f g (x.magnitude - f.infinity) := by
  have nan : x.isNaN = true := by simpa [isNaN] using h
  have payload : x.magnitude - f.infinity < f.fractions := by
    have := x.bounded
    have := f.infinity_add_fractions
    omega
  have small := quietPayload_lt quiet payload
  have whole := g.infinity_add_fractions
  simp only [convert, nan, if_true]
  exact ⟨rfl, ofMagnitude_magnitude (by unfold quietPayload at small; omega)⟩

theorem isNaN_convert (quiet : 0 < g.fractionBits) (x : Number f) :
    (x.convert g).isNaN = x.isNaN := by
  rcases lt_trichotomy x.magnitude f.infinity with finite | infinite | nan
  · have rounded := g.round_le_infinity (f.ratio x.magnitude).1 (f.ratio x.magnitude).2
    simp only [isNaN, (convert_of_finite finite).2, rounded.not_gt, finite.not_gt]
  · have top : (infinity x.negative : Number g).magnitude = g.infinity :=
      ofMagnitude_magnitude infinity_lt_magnitudes
    simp [isNaN, convert_of_infinite infinite, infinite, top]
  · have := quietPayload_pos (f := f) (g := g) (x.magnitude - f.infinity)
    simp [isNaN, (convert_of_nan quiet nan).2, nan, this]

theorem ratio_zero : (f.ratio 0).1 = 0 := by
  simp only [Format.ratio, Format.significand, Nat.zero_div, Nat.zero_mod, if_true, scaleDown]
  split
  · rfl
  · exact Nat.zero_mul _

theorem isZero_convert (ordinary : 0 < f.infinity) {x : Number f} (h : x.isZero = true) :
    (x.convert g).isZero = true := by
  have zero : x.magnitude = 0 := by simpa [isZero] using h
  have rounded := (convert_of_finite (g := g) (zero ▸ ordinary)).2
  rw [zero] at rounded
  simpa [isZero, ratio_zero, Format.round] using rounded

end Number

end OperatorGraph.Binary

namespace OperatorGraph

open Binary Binary.Number

theorem Binary32.narrow_widen {x : Binary32} (h : x.isNaN = false) : x.widen.narrow = x := by
  have at_most : x.magnitude ≤ single.infinity := by simpa [isNaN] using h
  rcases at_most.lt_or_eq with finite | infinite
  · obtain ⟨wide, wide_finite, same⟩ := Format.value_double finite
    obtain ⟨sign, magnitude⟩ := convert_of_finite (g := double) finite
    rw [double.round_value wide_finite.le (single.ratio_den_pos _)
      ((single.ratio_value _).trans same.symm)] at magnitude
    obtain ⟨sign', magnitude'⟩ := convert_of_finite (g := single) (magnitude ▸ wide_finite)
    rw [magnitude, single.round_value finite.le (double.ratio_den_pos _)
      ((double.ratio_value _).trans same)] at magnitude'
    exact ext_magnitude (sign'.trans sign) magnitude'
  · have top : (infinity x.negative : Binary64).magnitude = double.infinity :=
      ofMagnitude_magnitude infinity_lt_magnitudes
    have widened : x.widen = infinity x.negative := convert_of_infinite infinite
    have narrowed : Binary64.narrow (infinity x.negative) = infinity x.negative :=
      convert_of_infinite top
    rw [widened, narrowed]
    refine ext_magnitude rfl ?_
    exact (ofMagnitude_magnitude infinity_lt_magnitudes).trans infinite.symm

theorem quietPayload_single_double (payload : Nat) :
    quietPayload single double payload = (payload ||| 2 ^ 22) * 2 ^ 29 := by
  have scaled : payload * double.fractions / single.fractions = payload * 2 ^ 29 := by
    have weights : double.fractions = 2 ^ 29 * single.fractions := rfl
    rw [weights, ← Nat.mul_assoc, Nat.mul_div_cancel _ single.fractions_pos]
  have quiet : Nat.pow 2 (double.fractionBits - 1) = 2 ^ 22 * 2 ^ 29 := rfl
  rw [quietPayload, scaled, quiet, ← Nat.shiftLeft_eq, ← Nat.shiftLeft_eq, ← Nat.shiftLeft_eq,
    ← Nat.shiftLeft_or_distrib]

/-- A payload that has been made quiet in double precision goes through single precision. -/
theorem quietPayload_stable (payload : Nat) :
    quietPayload single double (quietPayload double single (quietPayload single double payload)) =
      quietPayload single double payload := by
  have narrowed : quietPayload double single ((payload ||| 2 ^ 22) * 2 ^ 29) =
      payload ||| 2 ^ 22 := by
    have weights : double.fractions = 2 ^ 29 * single.fractions := rfl
    have quiet : Nat.pow 2 (single.fractionBits - 1) = 2 ^ 22 := rfl
    rw [quietPayload, weights, quiet, Nat.mul_assoc, Nat.mul_div_cancel _ (by decide), Nat.or_assoc,
      Nat.or_self]
  rw [quietPayload_single_double payload, narrowed, quietPayload_single_double, Nat.or_assoc,
    Nat.or_self]

theorem quietPayload_double_single (payload : Nat) :
    quietPayload double single
        (quietPayload single double (quietPayload double single payload)) =
      quietPayload double single payload := by
  have quiet : Nat.pow 2 (single.fractionBits - 1) = 2 ^ 22 := rfl
  have weights : double.fractions = 2 ^ 29 * single.fractions := rfl
  rw [quietPayload_single_double]
  generalize wide : (quietPayload double single payload ||| 2 ^ 22) * 2 ^ 29 = scaled
  rw [quietPayload, weights, quiet, ← wide, Nat.mul_assoc, Nat.mul_div_cancel _ (by decide),
    quietPayload, quiet]
  simp only [Nat.or_assoc, Nat.or_self]

/-- What narrowing gives, a NaN as well, goes through double precision. -/
theorem Binary64.narrow_widen_narrow (x : Binary64) : x.narrow.widen.narrow = x.narrow := by
  have quiet_double : 0 < double.fractionBits := by decide
  have quiet_single : 0 < single.fractionBits := by decide
  have kept : x.narrow.isNaN = x.isNaN := isNaN_convert quiet_single x
  cases nan : x.isNaN with
  | false => exact Binary32.narrow_widen (kept.trans nan)
  | true =>
    obtain ⟨sign, magnitude⟩ := convert_of_nan quiet_single (by simpa [isNaN] using nan)
    have nan : x.narrow.isNaN = true := kept.trans nan
    obtain ⟨sign', magnitude'⟩ := convert_of_nan quiet_double (by simpa [isNaN] using nan)
    have nan : x.narrow.widen.isNaN = true := (isNaN_convert quiet_double _).trans nan
    obtain ⟨sign'', magnitude''⟩ := convert_of_nan quiet_single (by simpa [isNaN] using nan)
    refine ext_magnitude (sign''.trans sign') ?_
    have narrowed : x.narrow.magnitude = _ := magnitude
    have widened : x.narrow.widen.magnitude = _ := magnitude'
    rw [widened, narrowed] at magnitude''
    simp only [Nat.add_sub_cancel_left, quietPayload_double_single] at magnitude''
    exact magnitude''.trans magnitude.symm

/-- Widening is stable for NaNs as well: what it gives is given back. -/
theorem Binary32.widen_narrow_widen (x : Binary32) : x.widen.narrow.widen = x.widen := by
  cases nan : x.isNaN with
  | false => rw [narrow_widen nan]
  | true =>
    have quiet_double : 0 < double.fractionBits := by decide
    have quiet_single : 0 < single.fractionBits := by decide
    obtain ⟨sign, magnitude⟩ := convert_of_nan quiet_double (by simpa [isNaN] using nan)
    have nan : x.widen.isNaN = true := (isNaN_convert quiet_double x).trans nan
    obtain ⟨sign', magnitude'⟩ := convert_of_nan quiet_single (by simpa [isNaN] using nan)
    have nan : x.widen.narrow.isNaN = true := (isNaN_convert quiet_single _).trans nan
    obtain ⟨sign'', magnitude''⟩ := convert_of_nan quiet_double (by simpa [isNaN] using nan)
    refine ext_magnitude (sign''.trans sign') ?_
    have narrowed : x.widen.narrow.magnitude = _ := magnitude'
    have widened : x.widen.magnitude = _ := magnitude
    rw [narrowed, widened] at magnitude''
    simp only [Nat.add_sub_cancel_left, quietPayload_stable] at magnitude''
    exact magnitude''.trans magnitude.symm

end OperatorGraph
