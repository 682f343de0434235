import OperatorGraph.Proofs.Text.Items
import OperatorGraph.Proofs.Traversal

/-!
Blanks around texts. They matter neither to a trimmed text nor to the items of a list, whose pieces
are those that the commas of the whole text cut it into.
-/

namespace OperatorGraph.Text

/-- Whether a text has no characters but blanks. -/
def Blank (s : List Char) : Prop := ∀ c ∈ s, isBlank c = true

-- Named, as a search may find the instance that goes through all characters there are.
instance (s : List Char) : Decidable (Blank s) := List.decidableBAll (isBlank · = true) s

/-- Whether a text is another one with blanks around it. -/
def Padded (inner s : List Char) : Prop :=
  ∃ before after, Blank before ∧ Blank after ∧ s = before ++ inner ++ after

theorem Blank.nil : Blank [] := by simp [Blank]

theorem blank_append_iff {s t : List Char} : Blank (s ++ t) ↔ Blank s ∧ Blank t :=
  List.forall_mem_append

theorem Blank.comma_notMem {s : List Char} (h : Blank s) : ',' ∉ s := fun member =>
  absurd (h ',' member) (by decide)

/-- The ASCII characters that leave a mark are not blank. -/
theorem isBlank_eq_false_of_visible {c : Char} (h : 0x21 ≤ c.toNat ∧ c.toNat ≤ 0x7e) :
    isBlank c = false := by
  have apart : ∀ range ∈ blankRanges, range.2 < 0x21 ∨ 0x7e < range.1 := by decide
  refine List.any_eq_false.mpr fun range member => ?_
  have outside := apart range member
  simp only [Bool.and_eq_true, decide_eq_true_eq, not_and]
  omega

theorem trimLeft_eq_nil_iff {s : List Char} : trimLeft s = [] ↔ Blank s := List.dropWhile_eq_nil_iff

theorem trimLeft_append {before : List Char} (blank : Blank before) (s : List Char) :
    trimLeft (before ++ s) = trimLeft s :=
  List.dropWhile_append_of_pos blank

theorem trimRight_append {after : List Char} (blank : Blank after) (s : List Char) :
    trimRight (s ++ after) = trimRight s := by
  have reversed : Blank after.reverse := fun c member => blank c (List.mem_reverse.mp member)
  simp only [trimRight, List.reverse_append, trimLeft_append reversed]

theorem trim_append_left {before : List Char} (blank : Blank before) (s : List Char) :
    trim (before ++ s) = trim s := by
  simp only [trim, trimLeft_append blank]

theorem trim_append_right {after : List Char} (blank : Blank after) (s : List Char) :
    trim (s ++ after) = trim s := by
  by_cases all : Blank s
  · have whole : trimLeft (s ++ after) = [] :=
      trimLeft_eq_nil_iff.mpr (blank_append_iff.mpr ⟨all, blank⟩)
    simp only [trim, whole, trimLeft_eq_nil_iff.mpr all]
  · have kept : trimLeft (s ++ after) = trimLeft s ++ after := by
      have rest := mt trimLeft_eq_nil_iff.mp all
      simp only [trimLeft] at rest ⊢
      simp [List.dropWhile_append, rest]
    simp only [trim, kept, trimRight_append blank]

theorem Padded.trim_eq {inner s : List Char} (h : Padded inner s) : trim s = trim inner := by
  obtain ⟨before, after, blank, blank', rfl⟩ := h
  rw [trim_append_right blank', trim_append_left blank]

theorem padded_trim (s : List Char) : Padded (trim s) s := by
  refine ⟨s.takeWhile isBlank, (trimLeft s).rtakeWhile isBlank, fun c => List.mem_takeWhile_imp,
    fun c => List.mem_rtakeWhile_imp, ?_⟩
  have right : trim s ++ (trimLeft s).rtakeWhile isBlank = trimLeft s :=
    List.rdropWhile_append_rtakeWhile
  rw [List.append_assoc, right]
  exact List.takeWhile_append_dropWhile.symm

theorem Blank.trim_eq {s : List Char} (h : Blank s) : trim s = [] := by
  simpa [trim, trimRight, trimLeft] using congrArg trimRight (trimLeft_eq_nil_iff.mpr h)

theorem trim_eq_nil_iff {s : List Char} : trim s = [] ↔ Blank s := by
  refine ⟨fun nothing => ?_, Blank.trim_eq⟩
  obtain ⟨before, after, blank, blank', split⟩ := padded_trim s
  rw [split, nothing, List.append_nil]
  exact blank_append_iff.mpr ⟨blank, blank'⟩

/-- A text without blanks is trimmed. -/
theorem trim_eq_self {s : List Char} (h : ∀ c ∈ s, isBlank c = false) : trim s = s := by
  obtain ⟨before, after, blank, blank', split⟩ := padded_trim s
  have none {t : List Char} (within : t ⊆ s) (blank : Blank t) : t = [] :=
    List.eq_nil_iff_forall_not_mem.mpr fun c member =>
      absurd (blank c member) (by simp [h c (within member)])
  have first : before = [] := none (by rw [split]; simp) blank
  have last : after = [] := none (by rw [split]; simp) blank'
  simpa [first, last] using split.symm

theorem pieces_eq_splitOn (s : List Char) : pieces s = s.splitOn ',' := by
  induction s with
  | nil => simp [pieces]
  | cons c rest ih =>
    rw [pieces, List.splitOn_cons_eq_if_modifyHead, ih]
    by_cases comma : c = ','
    · simp [comma]
    · cases split : rest.splitOn ',' with
      | nil => exact absurd split (List.splitOn_ne_nil ',' rest)
      | cons piece others => simp [comma]

/-- The pieces between commas, without the blanks around them. -/
def parts (s : List Char) : List (List Char) := (s.splitOn ',').map trim

theorem parts_append_left {before : List Char} (blank : Blank before) (s : List Char) :
    parts (before ++ s) = parts s := by
  induction before with
  | nil => rfl
  | cons c rest ih =>
    have alone : Blank [c] := by simpa [Blank] using blank c List.mem_cons_self
    have tail := ih fun c' later => blank c' (List.mem_cons_of_mem c later)
    have other : c ≠ ',' := fun comma => alone.comma_notMem (by simp [comma])
    rw [← tail, parts, parts, List.cons_append, List.splitOn_cons_eq_if_modifyHead]
    cases split : (rest ++ s).splitOn ',' with
    | nil => exact absurd split (List.splitOn_ne_nil ',' _)
    | cons piece others =>
      have same : trim (c :: piece) = trim piece := trim_append_left alone piece
      simp [other, same]

/-- What holds no comma goes with the last piece. -/
theorem splitOn_append_of_comma_notMem {after : List Char} (h : ',' ∉ after) (s : List Char) :
    ∃ others last, s.splitOn ',' = others ++ [last] ∧
      (s ++ after).splitOn ',' = others ++ [last ++ after] := by
  induction s with
  | nil => exact ⟨[], [], by simp, by simp [List.splitOn_eq_singleton h]⟩
  | cons c rest ih =>
    obtain ⟨others, last, before, appended⟩ := ih
    rw [List.cons_append, List.splitOn_cons_eq_if_modifyHead, List.splitOn_cons_eq_if_modifyHead,
      before, appended]
    by_cases comma : c = ','
    · exact ⟨[] :: others, last, by simp [comma], by simp [comma]⟩
    · cases others with
      | nil => exact ⟨[], c :: last, by simp [comma], by simp [comma]⟩
      | cons piece others =>
        exact ⟨(c :: piece) :: others, last, by simp [comma], by simp [comma]⟩

theorem parts_append_right {after : List Char} (blank : Blank after) (s : List Char) :
    parts (s ++ after) = parts s := by
  obtain ⟨others, last, whole, appended⟩ := splitOn_append_of_comma_notMem blank.comma_notMem s
  simp [parts, whole, appended, trim_append_right blank]

theorem Padded.parts_eq {inner s : List Char} (h : Padded inner s) : parts s = parts inner := by
  obtain ⟨before, after, blank, blank', rfl⟩ := h
  rw [parts_append_right blank', parts_append_left blank]

theorem Blank.parts_eq {s : List Char} (h : Blank s) : parts s = [[]] := by
  simp [parts, List.splitOn_eq_singleton h.comma_notMem, h.trim_eq]

theorem Padded.blank_iff {inner s : List Char} (h : Padded inner s) : Blank s ↔ Blank inner := by
  rw [← trim_eq_nil_iff, h.trim_eq, trim_eq_nil_iff]

/-- A text lists its parts, if it has any characters but blanks. -/
theorem items_eq (s : List Char) : items s = if Blank s then [] else parts s := by
  rw [items, pieces_eq_splitOn]
  by_cases blank : Blank s
  · simp [blank, blank.trim_eq]
  · rw [if_neg (mt trim_eq_nil_iff.mp blank), if_neg blank]
    exact (padded_trim s).parts_eq.symm

/-- A written list is read part by part, and a blank text is the empty list. -/
theorem mapM_items_eq_some_iff {α : Type} {f : List Char → Option α} {s : List Char}
    {as : List α} : (items s).mapM f = some as ↔
      (Blank s ∧ as = []) ∨
        ¬Blank s ∧ List.Forall₂ (fun part a => f part = some a) (parts s) as := by
  rw [items_eq]
  by_cases blank : Blank s
  · simp [blank, eq_comm]
  · simp [blank, mapM_eq_some_iff]

theorem splitOn_intercalate {texts : List (List Char)} (nonempty : texts ≠ []) :
    ([','].intercalate texts).splitOn ',' = texts.flatMap (List.splitOn ',') := by
  induction texts with
  | nil => contradiction
  | cons first rest ih =>
    by_cases last : rest = []
    · simp [last]
    · rw [List.intercalate_cons_of_ne_nil last, List.append_assoc, List.singleton_append,
        List.splitOn_append_cons_self, ih last, List.flatMap_cons]

theorem parts_intercalate {texts : List (List Char)} (nonempty : texts ≠ []) :
    parts ([','].intercalate texts) = texts.flatMap parts := by
  rw [parts, splitOn_intercalate nonempty, List.map_flatMap]
  rfl

/-- Joined texts are not blank unless there is one at most, since there is a comma between two. -/
theorem length_le_one_of_blank_intercalate {texts : List (List Char)}
    (blank : Blank ([','].intercalate texts)) : texts.length ≤ 1 := by
  cases texts with
  | nil => simp
  | cons first rest =>
    by_cases last : rest = []
    · simp [last]
    · exact absurd (by simp [List.intercalate_cons_of_ne_nil last]) blank.comma_notMem

end OperatorGraph.Text
