import OperatorGraph.Text.Utf8

/-!
Text and its UTF-8 bytes determine each other.
-/

namespace OperatorGraph.Text

theorem toByteArray_data (b : ByteArray) : b.data.toList.toByteArray = b := by
  apply ByteArray.ext
  rw [List.data_toByteArray, Array.toArray_toList]

@[simp] theorem ofUtf8?_utf8 (s : String) : ofUtf8? (utf8 s) = some s := by
  have valid : s.toUTF8.IsValidUTF8 := s.isValidUTF8
  rw [ofUtf8?, utf8, toByteArray_data, String.fromUTF8?, dif_pos valid]
  rfl

theorem ofUtf8?_eq_some_iff {bytes : List UInt8} {s : String} :
    ofUtf8? bytes = some s ↔ bytes = utf8 s := by
  constructor
  · intro h
    unfold ofUtf8? String.fromUTF8? at h
    split at h
    · cases h
      have same : bytes.toByteArray.data.toList = bytes := by rw [List.data_toByteArray]
      exact same.symm
    · cases h
  · rintro rfl
    exact ofUtf8?_utf8 s

theorem utf8_eq_nil_iff {s : String} : utf8 s = [] ↔ s = "" := by
  rw [show ([] : List UInt8) = utf8 "" from rfl]
  constructor
  · intro h
    have := (ofUtf8?_utf8 s).symm.trans (congrArg ofUtf8? h)
    rw [ofUtf8?_utf8] at this
    exact Option.some.inj this
  · rintro rfl
    rfl

end OperatorGraph.Text
