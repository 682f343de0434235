import OperatorGraph.Proofs.Text.Integer

/-!
Names listed in a text: they stand between commas, with blanks around each and around the whole.
Such a text has the names as its items, however many blanks there are.
-/

namespace OperatorGraph.Text

/-- Whether a text can be one name in a list: it has no comma and no blank at either end. -/
structure IsName (w : List Char) : Prop where
  nonempty : w ≠ []
  comma : ',' ∉ w
  first : ∀ c ∈ w.head?, isBlank c = false
  last : ∀ c ∈ w.getLast?, isBlank c = false

theorem trimLeft_eq_self_iff {s : List Char} :
    trimLeft s = s ↔ ∀ c ∈ s.head?, isBlank c = false := by
  cases s with
  | nil => simp [trimLeft]
  | cons c rest => simp [trimLeft, List.dropWhile_eq_self_iff]

theorem trimRight_eq_self_iff {s : List Char} :
    trimRight s = s ↔ ∀ c ∈ s.getLast?, isBlank c = false := by
  rw [← List.head?_reverse, ← trimLeft_eq_self_iff, trimRight, List.reverse_eq_iff]

theorem trim_eq_self_iff {s : List Char} :
    trim s = s ↔ (∀ c ∈ s.head?, isBlank c = false) ∧ ∀ c ∈ s.getLast?, isBlank c = false := by
  rw [← trimLeft_eq_self_iff, ← trimRight_eq_self_iff]
  constructor
  · intro trimmed
    have left : trimLeft s = s := trimmed ▸ trimLeft_trim s
    exact ⟨left, by rwa [trim, left] at trimmed⟩
  · rintro ⟨left, right⟩
    rw [trim, left, right]

/-- Names are the items that are not empty. -/
theorem isName_iff {w : List Char} : IsName w ↔ IsItem w ∧ w ≠ [] := by
  constructor
  · exact fun h => ⟨⟨trim_eq_self_iff.mpr ⟨h.first, h.last⟩, h.comma⟩, h.nonempty⟩
  · rintro ⟨item, nonempty⟩
    obtain ⟨first, last⟩ := trim_eq_self_iff.mp item.trimmed
    exact ⟨nonempty, item.comma, first, last⟩

theorem IsName.trim_eq {w : List Char} (h : IsName w) : trim w = w := (isName_iff.mp h).1.trimmed

theorem IsName.not_blank {w : List Char} (h : IsName w) : ¬Blank w := fun blank =>
  h.nonempty (h.trim_eq ▸ blank.trim_eq)

theorem IsName.parts_eq {w : List Char} (h : IsName w) : parts w = [w] := by
  simp [parts, List.splitOn_eq_singleton h.comma, h.trim_eq]

theorem IsInteger.isName {s : List Char} {m : Int} (h : IsInteger s m) : IsName s :=
  isName_iff.mpr ⟨⟨h.trim_eq, h.comma_notMem⟩, h.ne_nil⟩

/-- Whether a text is other texts with commas between them, and blanks around each and around the
whole. -/
def Lists (texts : List (List Char)) (s : List Char) : Prop :=
  ∃ padded, List.Forall₂ Padded texts padded ∧ Padded ([','].intercalate padded) s

theorem flatMap_parts {names padded : List (List Char)} (h : List.Forall₂ Padded names padded)
    (each : ∀ w ∈ names, IsName w) : padded.flatMap parts = names := by
  induction h with
  | nil => rfl
  | @cons w item _ _ first _ ih =>
    obtain ⟨name, others⟩ := List.forall_mem_cons.mp each
    rw [List.flatMap_cons, first.parts_eq, name.parts_eq, ih others, List.singleton_append]

/-- Names that a text lists are its items. -/
theorem items_of_lists {names : List (List Char)} {s : List Char} (h : Lists names s)
    (each : ∀ w ∈ names, IsName w) : items s = names := by
  obtain ⟨padded, listed, whole⟩ := h
  rw [items_eq]
  cases listed with
  | nil =>
    have blank : Blank s := whole.blank_iff.mpr Blank.nil
    rw [if_pos blank]
  | @cons w item rest others first tail =>
    have filled : ¬Blank s := fun blank => by
      have joined := whole.blank_iff.mp blank
      have alone := length_le_one_of_blank_intercalate joined
      obtain rfl : others = [] := List.length_eq_zero_iff.mp (by simpa using alone)
      rw [List.intercalate_singleton] at joined
      exact (each w List.mem_cons_self).not_blank (first.blank_iff.mp joined)
    rw [if_neg filled, whole.parts_eq, parts_intercalate (List.cons_ne_nil _ _),
      flatMap_parts (.cons first tail) each]

end OperatorGraph.Text
