import Mathlib.Data.List.Lex
import Mathlib.Data.String.Basic
import Mathlib.Tactic.SplitIfs
import OperatorGraph.Proofs.Text.Utf8

/-!
The order of texts by code points is that of their UTF-8 bytes: where two characters differ, so do
their encodings, before either of them ends.
-/

namespace OperatorGraph.Text

open String (utf8EncodeChar)

theorem utf8_eq_flatMap (s : String) : utf8 s = s.toList.flatMap utf8EncodeChar := by
  rw [utf8, String.toUTF8, ← String.utf8Encode_toList, List.utf8Encode, List.data_toByteArray]

theorem byte_cons_lt {m n : Nat} {s t : List UInt8} (bound : n < 256)
    (h : m < n ∨ m = n ∧ s < t) : UInt8.ofNat m :: s < UInt8.ofNat n :: t := by
  rcases h with below | ⟨rfl, below⟩
  · have bytes := (UInt8.ofNat_lt_iff_lt (below.trans bound) bound).mpr below
    exact List.cons_lt_cons_iff.mpr (.inl bytes)
  · exact List.cons_lt_cons_iff.mpr (.inr ⟨rfl, below⟩)

/-- The last six bits of a number go to a byte of their own, after those of the bits before. -/
theorem lastByte_lt {v w : Nat} {s t : List UInt8} (h : v < w ∨ v = w ∧ s < t) :
    v / 64 < w / 64 ∨
      v / 64 = w / 64 ∧ UInt8.ofNat (v % 64 + 128) :: s < UInt8.ofNat (w % 64 + 128) :: t := by
  by_cases same : v / 64 = w / 64
  · refine .inr ⟨same, byte_cons_lt (by omega) ?_⟩
    exact h.imp (by omega) (And.imp_left (by omega))
  · exact .inl (by omega)

theorem utf8EncodeChar_append_lt {c d : Char} (h : c < d) (s t : List UInt8) :
    utf8EncodeChar c ++ s < utf8EncodeChar d ++ t := by
  have below : c.val.toNat < d.val.toNat := h
  have bound : d.val.toNat < 0x110000 := by
    rcases d.valid with h | h <;> omega
  have two := lastByte_lt (s := s) (t := t) (.inl below)
  have three := lastByte_lt two
  have four := lastByte_lt three
  simp only [Nat.div_div_eq_div_mul, Nat.reduceMul] at three four
  simp only [utf8EncodeChar]
  generalize c.val.toNat = v at *
  generalize d.val.toNat = w at *
  split_ifs <;> simp only [List.cons_append, List.nil_append]
  -- the smaller number takes no more bytes, and if it takes fewer its first byte is smaller
  any_goals (exfalso; omega)
  all_goals try exact byte_cons_lt (by omega) (.inl (by omega))
  · exact byte_cons_lt (by omega) (two.imp (by omega) (And.imp_left (by omega)))
  · exact byte_cons_lt (by omega) (three.imp (by omega) (And.imp_left (by omega)))
  · exact byte_cons_lt (by omega) (four.imp (by omega) (And.imp_left (by omega)))

theorem flatMap_utf8EncodeChar_lt {s t : List Char} (h : s < t) :
    s.flatMap utf8EncodeChar < t.flatMap utf8EncodeChar := by
  induction h with
  | @nil c rest =>
    have some_byte : utf8EncodeChar c ≠ [] := String.utf8EncodeChar_ne_nil
    obtain ⟨first, others, split⟩ := List.exists_cons_of_ne_nil some_byte
    rw [List.flatMap_nil, List.flatMap_cons, split, List.cons_append]
    exact List.nil_lt_cons _ _
  | rel below => exact utf8EncodeChar_append_lt below _ _
  | cons _ ih => exact List.append_left_lt ih

theorem utf8_lt_utf8 {s t : String} (h : s < t) : utf8 s < utf8 t := by
  rw [utf8_eq_flatMap, utf8_eq_flatMap]
  exact flatMap_utf8EncodeChar_lt (String.lt_iff_toList_lt.mp h)

theorem utf8_lt_utf8_iff {s t : String} : utf8 s < utf8 t ↔ s < t := by
  refine ⟨fun below => ?_, utf8_lt_utf8⟩
  rcases lt_trichotomy s t with h | rfl | h
  · exact h
  · exact absurd below (List.lt_irrefl _)
  · exact absurd (List.lt_trans below (utf8_lt_utf8 h)) (List.lt_irrefl _)

end OperatorGraph.Text
