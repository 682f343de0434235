import Mathlib.Data.Nat.Log
import Mathlib.Tactic.Ring
import OperatorGraph.Wire.Varint

/-!
A variable-length number is read back as it was written, and no way of writing it that can be read
takes fewer bytes.
-/

namespace OperatorGraph.Wire

theorem sevenBits_succ (bytes : Nat) : 2 ^ (7 * (bytes + 1)) = 2 ^ (7 * bytes) * 128 := by
  rw [Nat.mul_add, Nat.pow_add]

/-- The fewest bytes that hold a number. -/
def varintLength (n : Nat) : Nat := n.log2 / 7 + 1

theorem varintLength_le_iff {n bytes : Nat} (pos : 0 < bytes) :
    varintLength n ≤ bytes ↔ n < 2 ^ (7 * bytes) := by
  have byLog : n.log2 < 7 * bytes ↔ n < 2 ^ (7 * bytes) := by
    by_cases zero : n = 0
    · subst zero
      simp [Nat.log2_zero, pos]
    · exact Nat.log2_lt zero
  rw [← byLog, varintLength]
  omega

theorem varintLength_pos (n : Nat) : 0 < varintLength n := Nat.succ_pos _

theorem varintLength_small {n : Nat} (h : n < 128) : varintLength n = 1 :=
  Nat.le_antisymm ((varintLength_le_iff Nat.one_pos).mpr h) (varintLength_pos n)

theorem varintLength_large {n : Nat} (h : 128 ≤ n) :
    varintLength n = varintLength (n / 128) + 1 := by
  have shift (bytes : Nat) : n / 128 < 2 ^ (7 * bytes) ↔ n < 2 ^ (7 * (bytes + 1)) := by
    rw [Nat.div_lt_iff_lt_mul (by decide), sevenBits_succ]
  refine Nat.le_antisymm ?_ ?_
  · exact (varintLength_le_iff (Nat.succ_pos _)).mpr
      ((shift _).mp ((varintLength_le_iff (varintLength_pos _)).mp le_rfl))
  · have two : 1 < varintLength n := by
      by_contra one
      exact absurd ((varintLength_le_iff Nat.one_pos).mp (Nat.not_lt.mp one)) (by omega)
    obtain ⟨bytes, eq⟩ : ∃ bytes, varintLength n = bytes + 1 := ⟨varintLength n - 1, by omega⟩
    have fits := (varintLength_le_iff (Nat.succ_pos bytes)).mp eq.le
    have := (varintLength_le_iff (by omega)).mpr ((shift bytes).mpr fits)
    omega

theorem varintLength_mono {m n : Nat} (h : m ≤ n) : varintLength m ≤ varintLength n :=
  (varintLength_le_iff (varintLength_pos n)).mpr
    (h.trans_lt ((varintLength_le_iff (varintLength_pos n)).mp le_rfl))

theorem varintLength_double (n : Nat) : varintLength (2 * n) ≤ varintLength n + 1 := by
  have fits := (varintLength_le_iff (varintLength_pos n)).mp le_rfl
  refine (varintLength_le_iff (Nat.succ_pos _)).mpr ?_
  rw [sevenBits_succ]
  omega

theorem varintLength_add (m n : Nat) :
    varintLength (m + n) ≤ varintLength m + varintLength n := by
  have doubled : varintLength (2 * max m n) ≤ varintLength (max m n) + 1 := varintLength_double _
  have sum := varintLength_mono (show m + n ≤ 2 * max m n by omega)
  have := varintLength_pos m
  have := varintLength_pos n
  rcases Nat.le_total m n with le | le
  · rw [Nat.max_eq_right le] at doubled sum
    omega
  · rw [Nat.max_eq_left le] at doubled sum
    omega

theorem varintLength_le_succ (n : Nat) : varintLength n ≤ n + 1 := by
  refine (varintLength_le_iff (Nat.succ_pos n)).mpr ?_
  calc n < 2 ^ n := Nat.lt_two_pow_self
    _ ≤ 2 ^ (7 * (n + 1)) := Nat.pow_le_pow_right (by decide) (by omega)

theorem varintLength_key {form : Nat} (h : form < 8) (number : Nat) :
    varintLength (number * 8 + form) = varintLength (number * 8) := by
  refine Nat.le_antisymm ?_ (varintLength_mono (Nat.le_add_right _ _))
  obtain ⟨bytes, eq⟩ : ∃ bytes, varintLength (number * 8) = bytes + 1 := ⟨_, rfl⟩
  have fits := (varintLength_le_iff (Nat.succ_pos bytes)).mp eq.le
  rw [eq]
  refine (varintLength_le_iff (Nat.succ_pos bytes)).mpr ?_
  rw [sevenBits_succ] at fits ⊢
  omega

theorem length_writeVarintWithin {bytes n : Nat} (h : n < 2 ^ (7 * bytes)) (pos : 0 < bytes) :
    (writeVarintWithin bytes n).length = varintLength n := by
  induction bytes generalizing n with
  | zero => contradiction
  | succ bytes ih =>
    unfold writeVarintWithin
    split
    · rename_i small
      simp [varintLength_small small]
    · rename_i large
      rw [sevenBits_succ] at h
      have rest : n / 128 < 2 ^ (7 * bytes) := (Nat.div_lt_iff_lt_mul (by decide)).mpr h
      have more : 0 < bytes := by
        by_contra none
        simp [Nat.eq_zero_of_not_pos none] at rest
        omega
      rw [List.length_cons, ih rest more, varintLength_large (Nat.not_lt.mp large)]

theorem length_writeVarint (n : UInt64) : (writeVarint n).length = varintLength n.toNat :=
  length_writeVarintWithin (n.toNat_lt.trans (by decide)) (by decide)

theorem length_writeVarint_toUInt64 (n : Nat) :
    (writeVarint n.toUInt64).length ≤ varintLength n := by
  rw [length_writeVarint]
  exact varintLength_mono (Nat.mod_le n _)

theorem toNat_toUInt8 {n : Nat} (h : n < 256) : n.toUInt8.toNat = n := Nat.mod_eq_of_lt h

theorem toNat_toUInt64 {n : Nat} (h : n < 2 ^ 64) : n.toUInt64.toNat = n := Nat.mod_eq_of_lt h

/-- The last byte holds one bit only. -/
theorem readVarintWithin_write {bytes n : Nat} (h : n < 2 ^ (7 * bytes + 1)) (rest : List UInt8) :
    readVarintWithin (bytes + 1) (writeVarintWithin (bytes + 1) n ++ rest) = some (n, rest) := by
  induction bytes generalizing n with
  | zero =>
    have bit : n < 2 := h
    have byte := toNat_toUInt8 (show n < 256 by omega)
    simp [writeVarintWithin, readVarintWithin, byte, show n < 128 by omega, show ¬2 ≤ n by omega]
  | succ bytes ih =>
    rw [writeVarintWithin]
    split
    · rename_i small
      have byte := toNat_toUInt8 (show n < 256 by omega)
      simp [readVarintWithin, byte, small]
    · rename_i large
      have byte := toNat_toUInt8 (show n % 128 + 128 < 256 by omega)
      have inner : n / 128 < 2 ^ (7 * bytes + 1) := by
        rw [Nat.div_lt_iff_lt_mul (by decide)]
        calc n < 2 ^ (7 * (bytes + 1) + 1) := h
          _ = 2 ^ (7 * bytes + 1) * 128 := by rw [Nat.pow_succ, Nat.pow_succ, sevenBits_succ]; ring
      rw [List.cons_append, readVarintWithin, ih inner, byte, if_neg (by omega), if_neg (by omega)]
      simp only [Option.map_some, Option.some.injEq, Prod.mk.injEq, and_true]
      omega

theorem readVarint_write (n : UInt64) (rest : List UInt8) :
    readVarint (writeVarint n ++ rest) = some (n, rest) := by
  have back : readVarintWithin varintBytes (writeVarintWithin varintBytes n.toNat ++ rest) =
      some (n.toNat, rest) := readVarintWithin_write n.toNat_lt rest
  simp only [readVarint, writeVarint, back, Option.map_some, UInt64.ofNat_toNat, Nat.toUInt64]

theorem readVarintWithin_bounds {bytes n : Nat} {input rest : List UInt8}
    (h : readVarintWithin (bytes + 1) input = some (n, rest)) :
    n < 2 ^ (7 * bytes + 1) ∧ varintLength n + rest.length ≤ input.length := by
  induction bytes generalizing n input with
  | zero =>
    cases input with
    | nil => cases h
    | cons b tail =>
      simp only [readVarintWithin, true_and] at h
      split at h
      · cases h
      · rename_i bit
        rw [if_pos (by omega)] at h
        cases h
        refine ⟨by omega, ?_⟩
        rw [varintLength_small (by omega), List.length_cons]
        omega
  | succ bytes ih =>
    cases input with
    | nil => cases h
    | cons b tail =>
      have notLast : ¬(bytes + 1 = 0 ∧ 2 ≤ b.toNat) := by omega
      rw [readVarintWithin, if_neg notLast] at h
      split at h
      · rename_i small
        cases h
        have room : 128 ≤ 2 ^ (7 * (bytes + 1) + 1) :=
          Nat.pow_le_pow_right (show 0 < 2 by decide) (show 7 ≤ 7 * (bytes + 1) + 1 by omega)
        refine ⟨small.trans_le room, ?_⟩
        rw [varintLength_small small, List.length_cons]
        omega
      · rename_i large
        obtain ⟨⟨m, rest'⟩, read, eq⟩ := Option.map_eq_some_iff.mp h
        cases eq
        obtain ⟨fits, short⟩ := ih read
        have byte := b.toNat_lt
        refine ⟨?_, ?_⟩
        · calc b.toNat - 128 + 128 * m < 2 ^ (7 * bytes + 1) * 128 := by omega
            _ = 2 ^ (7 * (bytes + 1) + 1) := by rw [Nat.pow_succ, Nat.pow_succ, sevenBits_succ]; ring
        · have step : varintLength (b.toNat - 128 + 128 * m) ≤ varintLength m + 1 := by
            by_cases zero : m = 0
            · subst zero
              rw [varintLength_small (by omega)]
              omega
            · rw [varintLength_large (by omega)]
              exact Nat.succ_le_succ (varintLength_mono (by omega))
          rw [List.length_cons]
          omega

theorem readVarint_shortens {n : UInt64} {input rest : List UInt8}
    (h : readVarint input = some (n, rest)) :
    varintLength n.toNat + rest.length ≤ input.length := by
  obtain ⟨⟨m, rest'⟩, read, eq⟩ := Option.map_eq_some_iff.mp h
  cases eq
  have bounds : m < 2 ^ 64 ∧ varintLength m + rest.length ≤ input.length :=
    readVarintWithin_bounds read
  rw [toNat_toUInt64 bounds.1]
  exact bounds.2

end OperatorGraph.Wire
