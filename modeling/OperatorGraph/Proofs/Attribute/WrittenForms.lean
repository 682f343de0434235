import OperatorGraph.Proofs.Attribute.Denotation
import OperatorGraph.Proofs.Text.Listing

/-!
The written forms of a list of integers: the list itself, one text, a text for each, and any mixture
of integers and texts for several. Main statement: coercion to integers gives the same list for all.
-/

namespace OperatorGraph.Attribute

open Text (Blank Padded)

/-- Whether a text is the decimal texts of integers with commas between them, and blanks around each
and around the whole. -/
def IsTextOf (ns : List Int64) (s : String) : Prop :=
  ∃ items, List.Forall₂ (fun n item => Padded (Scalar.int n).display.toList item) ns items ∧
    Padded ([','].intercalate items) s.toList

/-- Whether a scalar is an integer or a text of one or more of them. -/
inductive Scalar.Writes : Scalar → List Int64 → Prop where
  | int (n : Int64) : Writes (.int n) [n]
  | text {ns : List Int64} {s : String} (nonempty : ns ≠ []) (written : IsTextOf ns s) :
      Writes (.text s) ns

inductive Value.Writes : Value → List Int64 → Prop where
  | ints (ns : List Int64) : Writes (.ints ns) ns
  | text {ns : List Int64} {s : String} (written : IsTextOf ns s) : Writes (.text s) ns
  | texts {ns : List Int64} {ss : List String}
      (written : List.Forall₂ (fun s n => IsTextOf [n] s) ss ns) :
      Writes (.list (ss.map .text)) ns
  | chunks {nss : List (List Int64)} {elements : List Scalar}
      (written : List.Forall₂ Scalar.Writes elements nss) :
      Writes (.list elements) nss.flatten
  | int (n : Int64) : Writes (.int n) [n]

theorem toList_display_int (n : Int64) :
    (Scalar.int n).display.toList = Text.integer n.toInt := by
  simp [Scalar.display]

theorem isTextOf_iff {ns : List Int64} {s : String} :
    IsTextOf ns s ↔ Text.Lists (ns.map fun n => Text.integer n.toInt) s.toList := by
  simp only [IsTextOf, Text.Lists, List.forall₂_map_left_iff, toList_display_int]

theorem items_of_isTextOf {ns : List Int64} {s : String} (h : IsTextOf ns s) :
    Text.items s.toList = ns.map fun n => Text.integer n.toInt := by
  refine Text.items_of_lists (isTextOf_iff.mp h) fun w written => ?_
  obtain ⟨n, _, rfl⟩ := List.mem_map.mp written
  exact (Text.isInteger_integer n.toInt).isName

theorem denotes_of_isTextOf {ns : List Int64} {s : String} (h : IsTextOf ns s) :
    (Scalar.text s).Denotes ns := by
  rw [← ListForm.mapM_integer?_items_eq_some_iff, items_of_isTextOf h, mapM_eq_some_iff,
    List.forall₂_map_left_iff, List.forall₂_same]
  exact fun n _ => Text.integer?_eq_some_iff.mpr (Text.isInteger_integer n.toInt)

theorem Scalar.Writes.denotes {s : Scalar} {ns : List Int64} (h : s.Writes ns) : s.Denotes ns := by
  cases h with
  | int n => exact .int n
  | text _ written => exact denotes_of_isTextOf written

/-- The elements of a written form denote the integers piece by piece. -/
theorem Value.Writes.denotes {value : Value} {ns : List Int64} (h : value.Writes ns) :
    ∃ elements nss, value.HasElements elements ∧ List.Forall₂ Scalar.Denotes elements nss ∧
      nss.flatten = ns := by
  have singles : (ns.map fun n => [n]).flatten = ns := by simp [← List.flatMap_def]
  cases h with
  | ints ns =>
    refine ⟨_, ns.map fun n => [n], .list _, ?_, singles⟩
    rw [List.forall₂_map_left_iff, List.forall₂_map_right_iff, List.forall₂_same]
    exact fun n _ => .int n
  | text written =>
    exact ⟨_, [ns], .scalar _, .cons (denotes_of_isTextOf written) .nil, by simp⟩
  | texts written =>
    refine ⟨_, ns.map fun n => [n], .list _, ?_, singles⟩
    rw [List.forall₂_map_left_iff, List.forall₂_map_right_iff]
    exact written.imp fun _ _ => denotes_of_isTextOf
  | chunks written => exact ⟨_, _, .list _, written.imp fun _ _ => Scalar.Writes.denotes, rfl⟩
  | int n => exact ⟨_, [[n]], .scalar _, .cons (.int n) .nil, rfl⟩

namespace Operation

/-- All written forms of a list of integers become that list. -/
theorem run_coerce_of_writes {store : Store} {name : String} {value : Value} {ns : List Int64}
    (held : store.get? name = some value) (written : value.Writes ns) :
    (coerce (.listOf .integers) name).run store = (store.insert name (.ints ns), .coerced none) := by
  obtain ⟨elements, nss, has, denote, rfl⟩ := written.denotes
  exact (run_coerce_integers_eq_none_iff held has).mpr ⟨nss, denote, rfl⟩

/-- The two limits, the smaller one in a text with blanks, beside an integer. -/
theorem run_coerce_of_writes_limits :
    let value : Value :=
      .list [.text " -9223372036854775808 ,7", .int 0, .text "9223372036854775807"]
    let ns : List Int64 := [Int64.minValue, 7, 0, Int64.maxValue]
    let store : Store := .ofList [("axes", value)]
    store.get? "axes" = some value ∧ value.Writes ns ∧
      (coerce (.listOf .integers) "axes").run store =
        (store.insert "axes" (.ints ns), .coerced none) := by
  intro value ns store
  have held : store.get? "axes" = some value := by decide
  have padded (item : List Char) (before after : List Char) (blank : Blank before ∧ Blank after) :
      Padded item (before ++ item ++ after) := ⟨before, after, blank.1, blank.2, rfl⟩
  have pair : IsTextOf [Int64.minValue, 7] " -9223372036854775808 ,7" :=
    ⟨[" -9223372036854775808 ".toList, ['7']],
      .cons (padded _ [' '] [' '] (by decide)) (.cons (padded _ [] [] (by decide)) .nil),
      padded _ [] [] (by decide)⟩
  have greatest : IsTextOf [Int64.maxValue] "9223372036854775807" :=
    ⟨["9223372036854775807".toList], .cons (padded _ [] [] (by decide)) .nil,
      padded _ [] [] (by decide)⟩
  have written : value.Writes ns :=
    .chunks (.cons (.text (by simp) pair) (.cons (.int 0) (.cons (.text (by simp) greatest) .nil)))
  exact ⟨held, written, run_coerce_of_writes held written⟩

end Operation

end OperatorGraph.Attribute
