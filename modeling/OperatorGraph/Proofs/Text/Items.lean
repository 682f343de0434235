import Mathlib.Data.List.DropRight
import OperatorGraph.Text.Items

/-!
Items of a written list. What has been trimmed stays as it is, no item holds a comma, and so an
item read once more is a list of that one item.
-/

namespace OperatorGraph.Text

theorem trimRight_isPrefix (s : List Char) : trimRight s <+: s :=
  List.rdropWhile_prefix isBlank s

theorem trimLeft_isSuffix (s : List Char) : trimLeft s <:+ s := List.dropWhile_suffix isBlank

/-- A text without blanks at its start keeps that when blanks are cut off its end. -/
theorem trimLeft_trim (s : List Char) : trimLeft (trim s) = trim s := by
  have cut := trimRight_isPrefix (trimLeft s)
  have fixed : trimLeft (trimLeft s) = trimLeft s := List.dropWhile_idempotent isBlank s
  simp only [trimLeft] at fixed
  rw [List.dropWhile_eq_self_iff] at fixed
  apply List.dropWhile_eq_self_iff.mpr
  intro nonempty
  have longer : 0 < (trimLeft s).length := Nat.lt_of_lt_of_le nonempty cut.length_le
  have first : (trim s)[0] = (trimLeft s)[0] := cut.getElem nonempty
  rw [first]
  exact fixed longer

@[simp] theorem trim_trim (s : List Char) : trim (trim s) = trim s := by
  have cut : trimRight (trim s) = trim s := List.rdropWhile_idempotent isBlank (trimLeft s)
  calc trim (trim s) = trimRight (trimLeft (trim s)) := rfl
    _ = trimRight (trim s) := by rw [trimLeft_trim]
    _ = trim s := cut

theorem mem_of_mem_trim {c : Char} {s : List Char} (h : c ∈ trim s) : c ∈ s :=
  (trimLeft_isSuffix s).subset ((trimRight_isPrefix (trimLeft s)).subset h)

theorem comma_notMem_pieces {s piece : List Char} (h : piece ∈ pieces s) : ',' ∉ piece := by
  induction s generalizing piece with
  | nil =>
    rw [pieces, List.mem_singleton] at h
    simp [h]
  | cons c rest ih =>
    simp only [pieces] at h
    split at h
    · rcases List.mem_cons.mp h with rfl | h
      · simp
      · exact ih h
    · rename_i other
      split at h
      · rw [List.mem_singleton] at h
        simpa [h] using Ne.symm other
      · rename_i first others split
        rcases List.mem_cons.mp h with rfl | h
        · simpa [Ne.symm other] using ih (split ▸ List.mem_cons_self)
        · exact ih (split ▸ List.mem_cons_of_mem first h)

theorem pieces_of_comma_notMem {s : List Char} (h : ',' ∉ s) : pieces s = [s] := by
  induction s with
  | nil => rfl
  | cons c rest ih =>
    obtain ⟨other, tail⟩ := not_or.mp (mt List.mem_cons.mpr h)
    simp [pieces, ih tail, Ne.symm other]

/-- An item is trimmed and holds no comma. -/
structure IsItem (item : List Char) : Prop where
  trimmed : trim item = item
  comma : ',' ∉ item

theorem isItem_of_mem_items {s item : List Char} (h : item ∈ items s) : IsItem item := by
  unfold items at h
  split at h
  · cases h
  · obtain ⟨piece, member, rfl⟩ := List.mem_map.mp h
    exact ⟨trim_trim piece, fun c => comma_notMem_pieces member (mem_of_mem_trim c)⟩

theorem IsItem.items_eq {item : List Char} (h : IsItem item) (nonempty : item ≠ []) :
    items item = [item] := by
  simp [items, h.trimmed, nonempty, pieces_of_comma_notMem h.comma]

end OperatorGraph.Text
