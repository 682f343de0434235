import OperatorGraph.Proofs.Text.Padding
import OperatorGraph.Text.Integer

/-!
Decimal integers as a grammar: digits, and a sign before them or none. What is read is exactly what
the grammar has and fits, so what is written for an integer is read as that integer.
-/

namespace OperatorGraph.Text

/-- Whether a text is decimal digits that stand for a number. -/
structure IsNatural (digits : List Char) (n : Nat) : Prop where
  nonempty : digits ≠ []
  digit : ∀ c ∈ digits, c.isDigit = true
  value : Nat.ofDigitChars 10 digits 0 = n

/-- Whether a text is an integer's digits after a sign or without one. -/
inductive IsInteger : List Char → Int → Prop where
  | bare {digits : List Char} {n : Nat} (natural : IsNatural digits n) : IsInteger digits n
  | plus {digits : List Char} {n : Nat} (natural : IsNatural digits n) :
      IsInteger ('+' :: digits) n
  | minus {digits : List Char} {n : Nat} (natural : IsNatural digits n) :
      IsInteger ('-' :: digits) (-n)

theorem natural?_eq_some_iff {s : List Char} {n : Nat} : natural? s = some n ↔ IsNatural s n := by
  unfold natural?
  constructor
  · intro read
    split at read
    · cases read
    · rename_i nonempty
      split at read
      · rename_i digits
        exact ⟨nonempty, List.all_eq_true.mp digits, Option.some.inj read⟩
      · cases read
  · rintro ⟨nonempty, digit, value⟩
    rw [if_neg nonempty, if_pos (List.all_eq_true.mpr digit), value]

theorem int64?_eq_some_iff {m : Int} {n : Int64} : int64? m = some n ↔ n.toInt = m := by
  have least : Int64.minValue.toInt = -2 ^ 63 := rfl
  have greatest : Int64.maxValue.toInt = 2 ^ 63 - 1 := rfl
  unfold int64?
  constructor
  · intro fits
    split at fits
    · rename_i bounds
      cases Option.some.inj fits
      exact Int64.toInt_ofInt_of_le (by omega) (by omega)
    · cases fits
  · rintro rfl
    have low := n.minValue_le_toInt
    have high := n.toInt_le
    rw [if_pos ⟨low, high⟩, Int64.ofInt_toInt]

theorem IsNatural.head_isDigit {digits : List Char} {n : Nat} (h : IsNatural digits n) {c : Char}
    {rest : List Char} (first : digits = c :: rest) : c.isDigit = true :=
  h.digit c (first ▸ List.mem_cons_self)

theorem IsNatural.splitSign_eq {digits : List Char} {n : Nat} (h : IsNatural digits n) :
    splitSign digits = (false, digits) := by
  unfold splitSign
  split
  · exact absurd (h.head_isDigit rfl) (by decide)
  · exact absurd (h.head_isDigit rfl) (by decide)
  · rfl

theorem isInteger_iff {s : List Char} {m : Int} :
    IsInteger s m ↔ ∃ n, natural? (splitSign s).2 = some n ∧
      (if (splitSign s).1 then -(n : Int) else n) = m := by
  constructor
  · intro h
    cases h with
    | bare natural =>
      rw [natural.splitSign_eq]
      exact ⟨_, natural?_eq_some_iff.mpr natural, rfl⟩
    | plus natural => exact ⟨_, natural?_eq_some_iff.mpr natural, rfl⟩
    | minus natural => exact ⟨_, natural?_eq_some_iff.mpr natural, rfl⟩
  · rintro ⟨n, read, rfl⟩
    have natural := natural?_eq_some_iff.mp read
    unfold splitSign at natural ⊢
    split at natural
    · exact .minus natural
    · exact .plus natural
    · exact .bare natural

/-- A text is read as an integer exactly if the grammar has it and the integer fits. -/
theorem integer?_eq_some_iff {s : List Char} {n : Int64} :
    integer? s = some n ↔ IsInteger s n.toInt := by
  rw [isInteger_iff]
  simp only [integer?, Option.bind_eq_bind, Option.bind_eq_some_iff, int64?_eq_some_iff]
  exact exists_congr fun k => and_congr_right fun _ => eq_comm

theorem isNatural_toDigits (n : Nat) : IsNatural (Nat.toDigits 10 n) n where
  nonempty := Nat.toDigits_ne_nil
  digit _ := Nat.isDigit_of_mem_toDigits (by decide) (by decide)
  value := Nat.ofDigitChars_ten_toDigits

theorem isInteger_integer (n : Int) : IsInteger (integer n) n := by
  unfold integer
  have digits := isNatural_toDigits n.natAbs
  split
  · rename_i negative
    have same : -(n.natAbs : Int) = n := by omega
    have signed := IsInteger.minus digits
    rwa [same] at signed
  · rename_i positive
    have same : (n.natAbs : Int) = n := by omega
    have bare := IsInteger.bare digits
    rwa [same] at bare

theorem isBlank_eq_false_of_isDigit {c : Char} (h : c.isDigit = true) : isBlank c = false := by
  have digits : 48 ≤ c.toNat ∧ c.toNat ≤ 57 := by
    simp only [Char.isDigit, ge_iff_le, Bool.and_eq_true, decide_eq_true_eq,
      UInt32.le_iff_toNat_le] at h
    exact h
  exact isBlank_eq_false_of_visible (by omega)

theorem IsInteger.isDigit_or_sign {s : List Char} {m : Int} (h : IsInteger s m) {c : Char}
    (member : c ∈ s) : c.isDigit = true ∨ c = '+' ∨ c = '-' := by
  cases h with
  | bare natural => exact .inl (natural.digit c member)
  | plus natural =>
    rcases List.mem_cons.mp member with rfl | later
    · exact .inr (.inl rfl)
    · exact .inl (natural.digit c later)
  | minus natural =>
    rcases List.mem_cons.mp member with rfl | later
    · exact .inr (.inr rfl)
    · exact .inl (natural.digit c later)

theorem IsInteger.comma_notMem {s : List Char} {m : Int} (h : IsInteger s m) : ',' ∉ s :=
  fun member => absurd (h.isDigit_or_sign member) (by decide)

theorem IsInteger.ne_nil {s : List Char} {m : Int} (h : IsInteger s m) : s ≠ [] := by
  cases h with
  | bare natural => exact natural.nonempty
  | plus natural => simp
  | minus natural => simp

theorem IsInteger.isBlank_eq_false {s : List Char} {m : Int} (h : IsInteger s m) {c : Char}
    (member : c ∈ s) : isBlank c = false := by
  rcases h.isDigit_or_sign member with digit | rfl | rfl
  · exact isBlank_eq_false_of_isDigit digit
  · decide
  · decide

theorem IsInteger.trim_eq {s : List Char} {m : Int} (h : IsInteger s m) : trim s = s :=
  trim_eq_self fun _ => h.isBlank_eq_false

/-- A text without the blanks around it is read as an integer exactly if the grammar has it with
blanks around. -/
theorem integer?_trim_eq_some_iff {s : List Char} {n : Int64} :
    integer? (trim s) = some n ↔ ∃ inner, IsInteger inner n.toInt ∧ Padded inner s := by
  rw [integer?_eq_some_iff]
  constructor
  · exact fun h => ⟨trim s, h, padded_trim s⟩
  · rintro ⟨inner, h, padded⟩
    rwa [padded.trim_eq, h.trim_eq]

end OperatorGraph.Text
