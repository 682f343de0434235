import OperatorGraph.Proofs.Decimal.Value
import OperatorGraph.Proofs.Json.Number

/-!
Floats as they are written: with the point among the digits, or with one digit before the point
and a power of ten. Either way a finite float is read as it was.
-/

namespace OperatorGraph.Json

namespace Reader

open Binary (double)

/-- The decimal that the parts of a number make up. -/
def NumberText.decimal (t : NumberText) : Decimal :=
  let fraction := t.fraction.getD []
  ⟨Nat.ofDigitChars 10 (t.whole ++ fraction) 0, t.power.getD 0 - fraction.length⟩

theorem NumberText.value_float {t : NumberText}
    (float : t.fraction.isSome = true ∨ t.power.isSome = true) :
    t.value = .float (.ofDecimal t.negative t.decimal) := by
  obtain ⟨negative, whole, fraction, power⟩ := t
  cases fraction with
  | some ds => simp [value, decimal]
  | none =>
    cases power with
    | some n => simp [value, decimal]
    | none => simp at float

/-- A text without a sign that stands for a decimal, and for no integer. -/
def Spells (text : List Char) (d : Decimal) : Prop :=
  ∃ t : NumberText, t.Proper ∧ t.negative = false ∧ t.text = text ∧
    (t.fraction.isSome = true ∨ t.power.isSome = true) ∧ t.decimal.value = d.value

variable {d : Decimal}

theorem spells_parts {whole : List Char} (isWhole : Whole whole) {fraction : List Char}
    (isDigits : Digits fraction) (power : Option Int)
    (same : (Decimal.mk (Nat.ofDigitChars 10 (whole ++ fraction) 0)
      (power.getD 0 - fraction.length)).value = d.value) :
    Spells (whole ++ '.' :: (fraction ++ powerText power)) d := by
  refine ⟨⟨false, whole, some fraction, power⟩, ⟨isWhole, ?_⟩, rfl, ?_, .inl rfl, same⟩
  · intro ds member
    cases member
    exact isDigits
  · simp [NumberText.text, fractionText]

theorem digits_digits (d : Decimal) : Digits d.digits := digits_toDigits d.coefficient

theorem head_digits (positive : 0 < d.coefficient) : d.digits.head? ≠ some '0' :=
  head_toDigits positive

theorem ofDigitChars_digits (d : Decimal) : Nat.ofDigitChars 10 d.digits 0 = d.coefficient :=
  Nat.ofDigitChars_ten_toDigits

theorem digit_zeros (n : Nat) : ∀ c ∈ List.replicate n '0', c.isDigit = true := by
  intro c member
  rw [(List.mem_replicate.mp member).2]
  decide

theorem digits_zero : Digits ['0'] := ⟨List.cons_ne_nil _ _, digit_zeros 1⟩

theorem whole_zero : Whole ['0'] := ⟨digits_zero, fun _ => rfl⟩

/-- The digits of a decimal, set apart at a point. -/
theorem spells_split (whole fraction : List Char) (power : Option Int)
    (digits : whole ++ fraction = d.digits) (positive : 0 < d.coefficient) (before : whole ≠ [])
    (after : fraction ≠ []) (place : power.getD 0 - fraction.length = d.exponent) :
    Spells (whole ++ '.' :: (fraction ++ powerText power)) d := by
  have all (c : Char) (member : c ∈ whole ++ fraction) : c.isDigit = true := by
    rw [digits] at member
    exact (digits_digits d).digit c member
  have first : whole.head? ≠ some '0' := by
    have first := head_digits positive
    rwa [← digits, List.head?_append_of_ne_nil _ before] at first
  refine spells_parts ⟨⟨before, ?_⟩, fun zero => absurd zero first⟩ ⟨after, ?_⟩ power ?_
  · exact fun c member => all c (List.mem_append_left _ member)
  · exact fun c member => all c (List.mem_append_right _ member)
  · rw [digits, place, ofDigitChars_digits]

/-- The point after all digits, and a zero after the point. -/
theorem spells_whole (positive : 0 < d.coefficient) {n : Nat} (exponent : d.exponent = n) :
    Spells (d.digits ++ List.replicate n '0' ++ ['.', '0']) d := by
  have digits := digits_digits d
  refine spells_parts ⟨digits.append (digit_zeros n), fun zero => ?_⟩ digits_zero none ?_
  · rw [List.head?_append_of_ne_nil _ digits.nonempty] at zero
    exact absurd zero (head_digits positive)
  · have zero (m : Nat) : Nat.ofDigitChars 10 ['0'] m = 10 * m :=
      Nat.ofDigitChars_replicate_zero (n := 1)
    simp [Decimal.value, exponent, Nat.ofDigitChars_append, ofDigitChars_digits, zero]
    ring

/-- Zeros before all digits, the first of them before the point. -/
theorem spells_zeros {n : Nat} (exponent : d.exponent = -(n + d.digits.length : Nat)) :
    Spells ('0' :: '.' :: List.replicate n '0' ++ d.digits) d := by
  have digits := digits_digits d
  have parts : Spells (['0'] ++ '.' :: (List.replicate n '0' ++ d.digits ++ powerText none)) d := by
    refine spells_parts whole_zero ⟨?_, ?_⟩ none ?_
    · exact List.append_ne_nil_of_right_ne_nil _ digits.nonempty
    · exact fun c member => (List.mem_append.mp member).elim (digit_zeros n c) (digits.digit c)
    · have number : Nat.ofDigitChars 10 (List.replicate (n + 1) '0' ++ d.digits) 0 =
          d.coefficient := by
        simp [Nat.ofDigitChars_append, ofDigitChars_digits]
      rw [List.replicate_succ, List.cons_append] at number
      simp [Decimal.value, exponent, number]
  simpa [powerText] using parts

theorem spells_pointed (positive : 0 < d.coefficient) : Spells d.pointed d := by
  have length : 0 < d.digits.length := List.length_pos_of_ne_nil (digits_digits d).nonempty
  unfold Decimal.pointed Decimal.positional
  dsimp only
  by_cases whole : 0 ≤ d.exponent
  · obtain ⟨n, exponent⟩ := Int.eq_ofNat_of_zero_le whole
    simpa only [exponent, Int.natCast_nonneg, if_true, Int.toNat_natCast] using
      spells_whole positive exponent
  · simp only [if_neg whole]
    split
    · rename_i place
      obtain ⟨n, here⟩ := Int.eq_ofNat_of_zero_le (Int.le_of_lt place)
      have exponent : d.exponent = n - d.digits.length := by
        simp only [Decimal.pointPlace] at here
        omega
      have before : (d.digits.take n).length = n := by simp; omega
      have after : (d.digits.drop n).length = d.digits.length - n := List.length_drop
      have parts := spells_split _ _ none (List.take_append_drop n d.digits) positive
        (List.ne_nil_of_length_pos (by omega)) (List.ne_nil_of_length_pos (by omega))
        (by rw [Option.getD_none]; omega)
      simpa only [here, Int.toNat_natCast, powerText, List.append_nil] using parts
    · rename_i place
      obtain ⟨n, here⟩ := Int.eq_ofNat_of_zero_le (show 0 ≤ -d.pointPlace by omega)
      rw [here]
      exact spells_zeros (by simp only [Decimal.pointPlace] at here; omega)

theorem spells_scientific (positive : 0 < d.coefficient) : Spells d.scientific d := by
  unfold Decimal.scientific
  dsimp only
  have nonempty : d.digits ≠ [] := Nat.toDigits_ne_nil
  split
  · rename_i first second rest digits
    have place : d.pointPlace - 1 - (second :: rest).length = d.exponent := by
      simp [Decimal.pointPlace, digits]
      omega
    exact spells_split [first] (second :: rest) (some (d.pointPlace - 1)) digits.symm positive
      (List.cons_ne_nil _ _) (List.cons_ne_nil _ _) place
  · rename_i several
    obtain ⟨c, single⟩ : ∃ c, d.digits = [c] := by
      match digits : d.digits with
      | [] => exact absurd digits nonempty
      | [c] => exact ⟨c, rfl⟩
      | first :: second :: rest => exact (several first second rest digits).elim
    have isWhole : Whole d.digits :=
      ⟨digits_digits d, fun zero => absurd zero (head_digits positive)⟩
    have length : d.digits.length = 1 := by rw [single, List.length_singleton]
    refine ⟨⟨false, d.digits, none, some (d.pointPlace - 1)⟩,
      ⟨isWhole, fun _ member => nomatch member⟩, rfl, ?_, .inr rfl, ?_⟩
    · simp [NumberText.text, fractionText, powerText]
    · simp [NumberText.decimal, ofDigitChars_digits, Decimal.pointPlace, length]

/-- A finite magnitude is written as a decimal that it is nearest to. -/
theorem exists_spells {magnitude : Nat} (finite : magnitude < double.infinity) :
    ∃ d, Spells (writeMagnitude magnitude) d ∧ double.ofDecimal d = magnitude := by
  have read := Decimal.ofDecimal_shortest .toEven (Nat.le_of_lt finite)
  unfold writeMagnitude
  dsimp only
  split
  · rename_i zero
    refine ⟨⟨0, 0⟩, spells_parts whole_zero digits_zero none ?_, ?_⟩
    · simp [Decimal.value, Nat.ofDigitChars]
    · rw [zero]
      rfl
  · rename_i nonzero
    -- A decimal that is read as a positive magnitude has a digit other than zero.
    have positive : 0 < (Decimal.shortest double .toEven magnitude).coefficient := by
      refine Nat.pos_of_ne_zero fun zero => nonzero ?_
      rw [← read, Binary.Format.ofDecimal, if_pos zero]
    split
    · exact ⟨_, spells_pointed positive, read⟩
    · exact ⟨_, spells_scientific positive, read⟩

theorem ofDecimal_magnitude (x : Binary64) {d : Decimal} (same : double.ofDecimal d = x.magnitude) :
    Binary.Number.ofDecimal x.negative d = x := by
  obtain ⟨negative, magnitude, bounded⟩ := x
  dsimp only at same
  simp only [Binary.Number.ofDecimal, Binary.Number.ofMagnitude, same, Nat.mod_eq_of_lt bounded]

theorem Spells.reads {text : List Char} (h : Spells text d) {x : Binary64}
    (finite : x.isFinite = true) (same : double.ofDecimal d = x.magnitude) :
    Reads float ((if x.negative then ['-'] else []) ++ text) (some x) := by
  obtain ⟨⟨_, whole, fraction, power⟩, proper, rfl, rfl, isFloat, value⟩ := h
  have same := (Decimal.ofDecimal_congr value).trans same
  have number : NumberText.value ⟨x.negative, whole, fraction, power⟩ = .float x :=
    (NumberText.value_float (t := .mk x.negative _ _ _) isFloat).trans
      (congrArg Number.float (ofDecimal_magnitude x same))
  have signed : NumberText.Proper ⟨x.negative, whole, fraction, power⟩ :=
    ⟨proper.whole, proper.fraction⟩
  -- The sign is all that the text of the number has before the text without one.
  have reads : Reads float (NumberText.text ⟨x.negative, whole, fraction, power⟩) (some x) := by
    refine (reads_anyNumber signed "f64" ?_).bind fun s => ?_
    · rw [number]
      rintro _ ⟨⟩
      exact finite
    · simp only [number, attempt_pure, Option.map_some]
  exact reads

/-- A finite float is read as it was; another one is written as null, which is no float. -/
theorem reads_float (x : Binary64) :
    Reads float (writeFloat x) (Option.guard (·.isFinite) x) := by
  by_cases finite : x.isFinite = true
  · obtain ⟨d, spells, same⟩ := exists_spells (of_decide_eq_true finite)
    have written : writeFloat x =
        (if x.negative then ['-'] else []) ++ writeMagnitude x.magnitude := by
      cases negative : x.negative <;> simp [writeFloat, finite, negative]
    rw [Option.guard, if_pos finite, written]
    exact spells.reads finite same
  · have word : writeFloat x = ['n', 'u', 'l', 'l'] := if_neg finite
    rw [Option.guard, if_neg finite, word]
    refine ⟨⟨_, _, rfl, by decide, by decide⟩, fun blanks rest before ends => ?_⟩
    have letter : isBlank 'n' = false := by decide
    have other : startsNumber 'n' = false := by decide
    simp [float, anyNumber, attempt_peekValue before letter, other]

end Reader

end OperatorGraph.Json
