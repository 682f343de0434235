import OperatorGraph.Json.Reader

/-!
What readers take off the front of a text, whatever fault they report if they fail, and texts
between quotes, which are read as they were written.
-/

namespace OperatorGraph.Json

namespace Reader

variable {α β : Type}

/-- What a reader reads and leaves of a text, if it does not fail. -/
def attempt (read : Reader α) (s : List Char) : Option (α × List Char) := (read s).toOption

@[simp] theorem attempt_pure (a : α) (s : List Char) : attempt (pure a) s = some (a, s) := rfl

@[simp] theorem attempt_throw (fault : Fault) (s : List Char) :
    attempt (throw fault : Reader α) s = none := rfl

@[simp] theorem attempt_get (s : List Char) : attempt get s = some (s, s) := rfl

@[simp] theorem attempt_set (s t : List Char) : attempt (set t) s = some (.unit, t) := rfl

@[simp] theorem attempt_modify (f : List Char → List Char) (s : List Char) :
    attempt (modify f) s = some (.unit, f s) := rfl

@[simp] theorem attempt_advance (s : List Char) : attempt advance s = some (.unit, s.tail) := rfl

@[simp] theorem attempt_bind (read : Reader α) (next : α → Reader β) (s : List Char) :
    attempt (read >>= next) s = (attempt read s).bind fun p => attempt (next p.1) p.2 := by
  simp only [attempt, bind, StateT.bind, Except.bind]
  cases read s <;> rfl

@[simp] theorem attempt_map (f : α → β) (read : Reader α) (s : List Char) :
    attempt (f <$> read) s = (attempt read s).map fun p => (f p.1, p.2) := by
  simp only [attempt, Functor.map, StateT.map, bind, Except.bind]
  cases read s <;> rfl

/-- A value of another type is never read. -/
@[simp] theorem attempt_mismatch (wanted : String) (s : List Char) :
    attempt (mismatch wanted : Reader α) s = none := by
  unfold mismatch
  simp only [attempt_bind, attempt_get, Option.bind_some]
  split
  case h_7 => split <;> simp
  all_goals simp

theorem attempt_word (letters s : List Char) :
    attempt (word letters) (letters ++ s) = some (.unit, s) := by
  induction letters with
  | nil => rfl
  | cons c rest ih => simp [word, ih]

/-! ## Texts -/

theorem hexDigit?_digitChar : ∀ n < 16, hexDigit? n.digitChar = some n := by decide

theorem attempt_hexEscape {n : Nat} (small : n < 32) (s : List Char) :
    attempt hexEscape ('0' :: '0' :: (hexDigits n ++ s)) = some (n, s) := by
  have high := hexDigit?_digitChar (n / 16) (by omega)
  have low := hexDigit?_digitChar (n % 16) (by omega)
  have zero : hexDigit? '0' = some 0 := by decide
  have size : ¬"0".utf8ByteSize + ("0".utf8ByteSize +
      ((n / 16).digitChar.utf8Size + (n % 16).digitChar.utf8Size)) < 4 := by
    have one : "0".utf8ByteSize = 1 := rfl
    have := (n / 16).digitChar.utf8Size_pos
    have := (n % 16).digitChar.utf8Size_pos
    omega
  simp [hexEscape, hexDigits, size, high, low, zero]
  omega

theorem attempt_numberedChar {n : Nat} (small : n < 32) (s : List Char) :
    attempt numberedChar ('0' :: '0' :: (hexDigits n ++ s)) = some (Char.ofNat n, s) := by
  have trailing : isTrailingSurrogate n = false := by simp [isTrailingSurrogate]; omega
  have leading : isLeadingSurrogate n = false := by simp [isLeadingSurrogate]; omega
  simp [numberedChar, attempt_hexEscape small, trailing, leading]

/-- A character is read as it is written. -/
theorem attempt_textChar (c : Char) (s : List Char) :
    attempt (textChar numberedChar) (escapedChar c ++ s) = some (some c, s) := by
  unfold escapedChar
  split
  · rename_i quoted
    rcases quoted with rfl | rfl
    · simp [textChar, letterEscape?]
    · simp [textChar, letterEscape?]
  split
  · subst c
    simp [textChar, letterEscape?]
  split
  · subst c
    simp [textChar, letterEscape?]
  split
  · subst c
    simp [textChar, letterEscape?]
  split
  · rename_i eight
    obtain rfl : c = '\x08' := Char.toNat_inj.mp eight
    simp [textChar, letterEscape?]
  split
  · rename_i twelve
    obtain rfl : c = '\x0c' := Char.toNat_inj.mp twelve
    simp [textChar, letterEscape?]
  split
  · rename_i control
    have numbered := attempt_numberedChar control s
    simp [textChar, numbered]
  · rename_i quoted _ _ _ _ _ printable
    obtain ⟨quote, backslash⟩ := not_or.mp quoted
    simp [textChar, printable, quote, backslash]

theorem escapedChar_ne_nil (c : Char) : escapedChar c ≠ [] := by
  intro empty
  have read := attempt_textChar c []
  rw [empty] at read
  cases read

/-- A text is read up to the quote after it. -/
theorem attempt_textWithin (chars s : List Char) {fuel : Nat} (enough : chars.length < fuel) :
    attempt (textWithin numberedChar fuel) (chars.flatMap escapedChar ++ '"' :: s) =
      some (chars, s) := by
  induction chars generalizing fuel with
  | nil =>
    obtain ⟨fuel, rfl⟩ := Nat.exists_eq_succ_of_ne_zero (Nat.ne_of_gt enough)
    simp [textWithin, textChar]
  | cons c rest ih =>
    obtain ⟨fuel, rfl⟩ := Nat.exists_eq_succ_of_ne_zero (Nat.ne_of_gt (Nat.zero_lt_of_lt enough))
    have later := ih (Nat.lt_of_succ_lt_succ enough)
    simp [textWithin, attempt_textChar, later]

theorem length_le_flatMap_escapedChar (chars : List Char) :
    chars.length ≤ (chars.flatMap escapedChar).length := by
  induction chars with
  | nil => exact Nat.zero_le _
  | cons c rest ih =>
    have := List.length_pos_iff.mpr (escapedChar_ne_nil c)
    simp only [List.length_cons, List.flatMap_cons, List.length_append]
    omega

theorem attempt_restOfText (s : String) (rest : List Char) :
    attempt restOfText (s.toList.flatMap escapedChar ++ '"' :: rest) = some (s, rest) := by
  have enough := length_le_flatMap_escapedChar s.toList
  have read := attempt_textWithin s.toList rest
    (show _ < (s.toList.flatMap escapedChar ++ '"' :: rest).length + 1 by
      rw [List.length_append]
      omega)
  simp only [restOfText, attempt_bind, attempt_get, Option.bind_some, read, attempt_pure,
    String.ofList_toList]

end Reader

end OperatorGraph.Json
