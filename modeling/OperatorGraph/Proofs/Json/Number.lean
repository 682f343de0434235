import Mathlib.Data.List.TakeDrop
import OperatorGraph.Proofs.Json.Shape

/-!
Numbers as they are written: a sign, digits, and after them a fraction and a power of ten, if there
are any. They are read in the same parts.
-/

namespace OperatorGraph.Json

namespace Reader

variable {e : Fault} {rest : List Char}

/-- Digits, and at least one of them. -/
structure Digits (ds : List Char) : Prop where
  nonempty : ds ≠ []
  digit : ∀ c ∈ ds, c.isDigit = true

theorem digits_toDigits (n : Nat) : Digits (Nat.toDigits 10 n) where
  nonempty := Nat.toDigits_ne_nil
  digit _ := Nat.isDigit_of_mem_toDigits (by decide) (by decide)

theorem Digits.append {ds ds' : List Char} (h : Digits ds) (h' : ∀ c ∈ ds', c.isDigit = true) :
    Digits (ds ++ ds') where
  nonempty := List.append_ne_nil_of_left_ne_nil h.nonempty ds'
  digit c member := (List.mem_append.mp member).elim (h.digit c) (h' c)

def EndsDigits (s : List Char) : Prop := ∀ c ∈ s.head?, c.isDigit = false

theorem EndsNumber.digits {s : List Char} (h : EndsNumber s) : EndsDigits s := fun c first =>
  (h c first).1

theorem attempt_takeDigits {ds : List Char} (h : ∀ c ∈ ds, c.isDigit = true)
    (ends : EndsDigits rest) : attempt takeDigits (ds ++ rest) = some (ds, rest) := by
  have taken : rest.takeWhile Char.isDigit = [] := by
    cases rest with
    | nil => rfl
    | cons c s => simp [ends c rfl]
  have left : rest.dropWhile Char.isDigit = rest := by
    cases rest with
    | nil => rfl
    | cons c s => simp [ends c rfl]
  simp [takeDigits, List.span_eq_takeWhile_dropWhile, List.takeWhile_append_of_pos h,
    List.dropWhile_append_of_pos h, taken, left]

theorem attempt_digits {ds : List Char} (h : Digits ds) (ends : EndsDigits rest) :
    attempt (digits e) (ds ++ rest) = some (ds, rest) := by
  simp [digits, attempt_takeDigits h.digit ends, h.nonempty]

/-- Digits without a superfluous zero before them. -/
structure Whole (ds : List Char) : Prop extends Digits ds where
  noZero : ds.head? = some '0' → ds = ['0']

theorem attempt_wholeDigits {ds : List Char} (h : Whole ds) (ends : EndsDigits rest) :
    attempt (wholeDigits e) (ds ++ rest) = some (ds, rest) := by
  simp only [wholeDigits, attempt_bind, attempt_digits h.toDigits ends, Option.bind_some]
  split
  · cases h.noZero rfl
  · rfl

def fractionText : Option (List Char) → List Char
  | none => []
  | some ds => '.' :: ds

def powerText : Option Int → List Char
  | none => []
  | some n => 'e' :: (if n < 0 then '-' else '+') :: Nat.toDigits 10 n.natAbs

theorem attempt_fractionDigits {fraction : Option (List Char)} (h : ∀ ds ∈ fraction, Digits ds)
    (ends : EndsDigits rest) (none : rest.head? ≠ some '.') :
    attempt (fractionDigits e) (fractionText fraction ++ rest) = some (fraction, rest) := by
  cases fraction with
  | none => simp [fractionText, fractionDigits, none]
  | some ds => simp [fractionText, fractionDigits, attempt_digits (h ds rfl) ends]

theorem attempt_power {p : Option Int} (ends : EndsNumber rest) :
    attempt (power e) (powerText p ++ rest) = some (p, rest) := by
  cases p with
  | none =>
    simp only [powerText, power, List.nil_append, attempt_bind, attempt_get, Option.bind_some]
    split
    · rename_i first
      exact absurd rfl (ends _ first).2.2.1
    · rename_i first
      exact absurd rfl (ends _ first).2.2.2
    · rfl
  | some n =>
    simp only [powerText]
    generalize size : n.natAbs = k
    have read := attempt_digits (e := e) (digits_toDigits k) ends.digits
    by_cases negative : n < 0
    · have back : -(k : Int) = n := by omega
      simp [power, negative, read, back]
    · have back : (k : Int) = n := by omega
      simp [power, negative, read, back]

def NumberText.text (t : NumberText) : List Char :=
  (if t.negative then ['-'] else []) ++
    (t.whole ++ (fractionText t.fraction ++ powerText t.power))

structure NumberText.Proper (t : NumberText) : Prop where
  whole : Whole t.whole
  fraction : ∀ ds ∈ t.fraction, Digits ds

theorem Digits.head {ds : List Char} (h : Digits ds) (s : List Char) :
    ∃ c, (ds ++ s).head? = some c ∧ c.isDigit = true := by
  obtain ⟨c, others, rfl⟩ := List.exists_cons_of_ne_nil h.nonempty
  exact ⟨c, rfl, h.digit c List.mem_cons_self⟩

theorem endsDigits_fractionText {s : List Char} (fraction : Option (List Char))
    (ends : EndsDigits s) : EndsDigits (fractionText fraction ++ s) := by
  cases fraction with
  | none => exact ends
  | some ds => simp [EndsDigits, fractionText]

theorem endsDigits_powerText {s : List Char} (power : Option Int) (ends : EndsNumber s) :
    EndsDigits (powerText power ++ s) := by
  cases power with
  | none => exact ends.digits
  | some n => simp [EndsDigits, powerText]

theorem head_powerText {s : List Char} (power : Option Int) (ends : EndsNumber s) :
    (powerText power ++ s).head? ≠ some '.' := by
  cases power with
  | none => exact fun point => (ends _ point).2.1 rfl
  | some n => simp [powerText]

/-- A number is read up to its end, in the parts that it is written of. -/
theorem attempt_numberText {t : NumberText} (h : t.Proper) (ends : EndsNumber rest) :
    attempt (numberText e) (t.text ++ rest) = some (t, rest) := by
  obtain ⟨negative, whole, fraction, power⟩ := t
  have wholeRead := attempt_wholeDigits (e := e) h.whole
    (endsDigits_fractionText fraction (endsDigits_powerText power ends))
  have fractionRead := attempt_fractionDigits (e := e) h.fraction
    (endsDigits_powerText power ends) (head_powerText power ends)
  have powerRead := attempt_power (e := e) (p := power) ends
  obtain ⟨c, first, digit⟩ := h.whole.head (fractionText fraction ++ (powerText power ++ rest))
  cases negative with
  | true =>
    simp [NumberText.text, numberText, wholeRead, fractionRead, powerRead]
  | false =>
    -- A digit leads, so that no sign is read.
    have unsigned : c ≠ '-' := by
      rintro rfl
      cases digit
    simp [NumberText.text, numberText, first, unsigned, wholeRead, fractionRead, powerRead]

/-! ## Integers -/

theorem startsNumber_value {c : Char} (h : startsNumber c = true) :
    isBlank c = false ∧ c ≠ ']' := by
  constructor
  · by_contra blank
    simp only [Bool.not_eq_false, isBlank, Bool.or_eq_true, decide_eq_true_eq] at blank
    rcases blank with ((rfl | rfl) | rfl) | rfl <;> cases h
  · rintro rfl
    cases h

theorem NumberText.Proper.begins {t : NumberText} (h : t.Proper) :
    ∃ c s, t.text = c :: s ∧ startsNumber c = true := by
  obtain ⟨negative, whole, fraction, power⟩ := t
  obtain ⟨c, others, rfl⟩ := List.exists_cons_of_ne_nil h.whole.nonempty
  have digit := h.whole.digit c List.mem_cons_self
  cases negative with
  | true => exact ⟨'-', _, rfl, by decide⟩
  | false => exact ⟨c, _, rfl, by simp [startsNumber, digit]⟩

/-- A number is read as its value, unless that is too large for a float. -/
theorem reads_anyNumber {t : NumberText} (h : t.Proper) (wanted : String)
    (finite : ∀ x, t.value = .float x → x.isFinite = true) :
    Reads (anyNumber wanted) t.text (some t.value) where
  begins := by
    obtain ⟨c, s, begins, number⟩ := h.begins
    exact ⟨c, s, begins, startsNumber_value number⟩
  attempt blanks rest blank ends := by
    obtain ⟨c, s, begins, starts⟩ := h.begins
    have read := attempt_numberText (e := .endInValue) h ends
    rw [begins, List.cons_append] at read ⊢
    cases value : t.value with
    | float x =>
      simp [anyNumber, attempt_peekValue blank (startsNumber_value starts).1, starts, number, read,
        value, finite x value]
    | _ =>
      simp [anyNumber, attempt_peekValue blank (startsNumber_value starts).1, starts, number, read,
        value]

/-- The parts of an integer. -/
def NumberText.ofInt (n : Int) : NumberText := ⟨n < 0, Nat.toDigits 10 n.natAbs, none, none⟩

theorem NumberText.text_ofInt (n : Int) : (ofInt n).text = Text.integer n := by
  by_cases negative : n < 0
  · simp [text, ofInt, fractionText, powerText, Text.integer, negative]
  · simp [text, ofInt, fractionText, powerText, Text.integer, negative]

theorem digitChar_ne_zero : ∀ n < 10, n ≠ 0 → n.digitChar ≠ '0' := by decide

/-- No zero leads the digits of a positive number. -/
theorem head_toDigits {n : Nat} (positive : 0 < n) : (Nat.toDigits 10 n).head? ≠ some '0' := by
  induction n using Nat.strongRecOn with
  | ind n ih =>
    by_cases small : n < 10
    · simp [Nat.toDigits_of_lt_base small, digitChar_ne_zero n small (Nat.ne_of_gt positive)]
    · have higher := ih (n / 10) (by omega) (by omega)
      obtain ⟨c, rest, digits⟩ := List.exists_cons_of_ne_nil
        (Nat.toDigits_ne_nil : Nat.toDigits 10 (n / 10) ≠ [])
      rw [Nat.toDigits_of_base_le (by decide) (by omega), digits]
      rw [digits] at higher
      exact higher

theorem whole_toDigits (n : Nat) : Whole (Nat.toDigits 10 n) where
  toDigits := digits_toDigits n
  noZero zero := by
    rcases Nat.eq_zero_or_pos n with rfl | positive
    · rfl
    · exact absurd zero (head_toDigits positive)

theorem NumberText.proper_ofInt (n : Int) : (ofInt n).Proper where
  whole := whole_toDigits n.natAbs
  fraction _ member := nomatch member

theorem NumberText.value_ofInt {n : Int} (low : Int64.minValue.toInt ≤ n) (high : n < UInt64.size) :
    (ofInt n).value = if n < 0 then .negative n else .natural n.toNat := by
  unfold ofInt
  generalize size : n.natAbs = k
  have digits : Nat.ofDigitChars 10 (Nat.toDigits 10 k) 0 = k := Nat.ofDigitChars_ten_toDigits
  by_cases negative : n < 0
  · have positive : 0 < k := by omega
    have back : -(k : Int) = n := by omega
    simpa [value, negative, digits, positive, back] using low
  · obtain rfl : n = k := by omega
    have fits : k < UInt64.size := by omega
    simpa [value, negative, digits] using fits

theorem reads_integerBetween {least greatest n : Int} (wanted : String) (low : least ≤ n)
    (high : n ≤ greatest) (fits : Int64.minValue.toInt ≤ least) (fits' : greatest < UInt64.size) :
    Reads (integerBetween least greatest wanted) (Text.integer n) (some n) := by
  have value := NumberText.value_ofInt (Int.le_trans fits low) (Int.lt_of_le_of_lt high fits')
  rw [← NumberText.text_ofInt]
  refine (reads_anyNumber (NumberText.proper_ofInt n) wanted ?_).bind fun s => ?_
  · intro x float
    rw [value] at float
    split at float <;> cases float
  · by_cases negative : n < 0
    · simp [value, negative, low, high]
    · have whole : (n.toNat : Int) = n := Int.toNat_of_nonneg (Int.not_lt.mp negative)
      simp [value, negative, whole, low, high]

theorem reads_int64 (n : Int64) : Reads int64 (Text.integer n.toInt) (some n) := by
  have read := reads_integerBetween "i64" n.minValue_le_toInt n.toInt_le (by decide) (by decide)
  have back := read.map Int64.ofInt
  rwa [Option.map_some, n.ofInt_toInt] at back

theorem reads_byte (b : UInt8) : Reads byte (Text.integer b.toNat) (some b) := by
  have bound := b.toNat_lt
  have read := reads_integerBetween "u8" (Int.natCast_nonneg b.toNat)
    (show (b.toNat : Int) ≤ 255 by omega) (by decide) (by decide)
  have back := read.map fun n => n.toNat.toUInt8
  rwa [Option.map_some, Int.toNat_natCast, Nat.toUInt8_eq, UInt8.ofNat_toNat] at back

end Reader

end OperatorGraph.Json
