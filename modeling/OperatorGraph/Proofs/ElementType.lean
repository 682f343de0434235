import OperatorGraph.ElementType
import OperatorGraph.Proofs.Text.LetterCase

/-!
Names of element types. A text names a type exactly if it is a spelling of it in any case and with
any blanks around, so neither case nor blanks make a difference.
-/

namespace OperatorGraph.ElementType

open Text (Padded SameButCase)

/-- Whether a text is a spelling of a type, in any case of the letters and with blanks around it. -/
def Names (t : ElementType) (s : String) : Prop :=
  ∃ spelling ∈ t.spellings, ∃ inner, SameButCase inner spelling.toList ∧ Padded inner s.toList

/-- Whether a text is another one in a different case of the letters and with blanks around it. -/
def Respells (t s : String) : Prop :=
  ∃ inner, SameButCase inner s.toList ∧ Padded inner t.toList

theorem ofSpelling?_congr {s t : List Char} (h : SameButCase s t) :
    ofSpelling? s = ofSpelling? t := by
  rw [ofSpelling?, ofSpelling?, h]

/-- Neither case nor blanks change what a text names. -/
theorem ofName?_of_respells {s t : String} (h : Respells t s) : ofName? t = ofName? s := by
  obtain ⟨inner, same, padded⟩ := h
  rw [ofName?, ofName?, padded.trim_eq, ofSpelling?_congr same.trim]

theorem spellings_spec (t : ElementType) : ∀ spelling ∈ t.spellings,
    ofName? spelling = some t ∧ spelling.toList.map Char.toLower = spelling.toList := by
  cases t <;> decide

theorem ofName?_eq_some_iff {s : String} {t : ElementType} : ofName? s = some t ↔ t.Names s := by
  constructor
  · intro h
    have spelled := List.find?_some h
    simp only [List.any_eq_true, decide_eq_true_eq] at spelled
    obtain ⟨spelling, member, same⟩ := spelled
    refine ⟨spelling, member, Text.trim s.toList, ?_, Text.padded_trim s.toList⟩
    rw [SameButCase, (spellings_spec t spelling member).2, same]
  · rintro ⟨spelling, member, inner, same, padded⟩
    rw [ofName?_of_respells ⟨inner, same, padded⟩, (spellings_spec t spelling member).1]

/-- A long spelling in capital letters, and a name that no type has. -/
example : ofName? "\tFLOAT16 " = some .f16 ∧ ofName? "u1" = none := by decide

/-- A written name is read as the type it names. -/
theorem ofName?_name (t : ElementType) : ofName? t.name = some t :=
  (spellings_spec t t.name List.mem_cons_self).1

end OperatorGraph.ElementType
