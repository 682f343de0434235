import OperatorGraph.Proofs.Text.Padding

/-!
Upper and lower case of ASCII letters, which blanks have nothing to do with.
-/

namespace OperatorGraph.Text

/-- Whether two texts differ at most in the case of ASCII letters. -/
def SameButCase (s t : List Char) : Prop := s.map Char.toLower = t.map Char.toLower

/-- Lower case takes the place of capital letters alone. -/
theorem toLower_cases (c : Char) :
    c.toLower = c ∨ (65 ≤ c.toNat ∧ c.toNat ≤ 90) ∧ c.toLower.toNat = c.toNat + 32 := by
  unfold Char.toLower
  split
  · rename_i capital
    have low : 65 ≤ c.toNat := capital.1
    have high : c.toNat ≤ 90 := capital.2
    have shifted : (c.val + 32).toNat = c.toNat + 32 := by
      have added := UInt32.toNat_add c.val 32
      have code : c.val.toNat = c.toNat := rfl
      have offset : (32 : UInt32).toNat = 32 := rfl
      omega
    exact .inr ⟨⟨low, high⟩, shifted⟩
  · exact .inl rfl

theorem isBlank_toLower (c : Char) : isBlank c.toLower = isBlank c := by
  rcases toLower_cases c with same | ⟨capital, lower⟩
  · rw [same]
  · rw [isBlank_eq_false_of_visible (by omega), isBlank_eq_false_of_visible (by omega)]

theorem trimLeft_map_toLower (s : List Char) :
    trimLeft (s.map Char.toLower) = (trimLeft s).map Char.toLower := by
  have blanks : isBlank ∘ Char.toLower = isBlank := funext isBlank_toLower
  rw [trimLeft, List.dropWhile_map, blanks, trimLeft]

theorem trim_map_toLower (s : List Char) :
    trim (s.map Char.toLower) = (trim s).map Char.toLower := by
  simp only [trim, trimRight, trimLeft_map_toLower, ← List.map_reverse]

theorem SameButCase.trim {s t : List Char} (h : SameButCase s t) :
    SameButCase (trim s) (trim t) := by
  rw [SameButCase, ← trim_map_toLower, ← trim_map_toLower, h]

end OperatorGraph.Text
