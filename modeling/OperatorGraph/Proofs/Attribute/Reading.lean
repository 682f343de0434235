import OperatorGraph.Attribute.Query
import OperatorGraph.Proofs.Attribute.Operation
import OperatorGraph.Proofs.Attribute.Denotation
import OperatorGraph.Proofs.Text.Listing

/-!
Reading attributes as integers beside coercing them. A value that is read as one integer is coerced
to that integer and to the list of it alone, and a value that is read as a list is coerced to
itself.
-/

namespace OperatorGraph.Attribute

open Text (IsInteger Padded)

theorem Scalar.mapM_int?_eq_some_iff {elements : List Scalar} {ns : List Int64} :
    elements.mapM Scalar.int? = some ns ↔ elements = ns.map .int := by
  have one : ∀ (e : Scalar) (n : Int64), e.int? = some n ↔ e = .int n := by
    intro e n
    cases e <;> simp [int?]
  simp only [mapM_eq_some_iff, one]
  exact List.forall₂_map_right_iff.symm.trans (by rw [List.forall₂_eq_eq_eq])

/-- Whether a value is an integer, or the text of one with blanks around it. -/
inductive Value.Spells : Value → Int64 → Prop where
  | int (n : Int64) : Spells (.int n) n
  | text {s : String} {n : Int64} {numeral : List Char} (integer : IsInteger numeral n.toInt)
      (padded : Padded numeral s.toList) : Spells (.text s) n

theorem Value.spells_text_iff {s : String} {n : Int64} :
    (Value.text s).Spells n ↔ Text.integer? (Text.trim s.toList) = some n := by
  rw [Text.integer?_trim_eq_some_iff]
  constructor
  · rintro (_ | ⟨integer, padded⟩)
    exact ⟨_, integer, padded⟩
  · rintro ⟨numeral, integer, padded⟩
    exact .text integer padded

/-- The one scalar of such a value denotes the list of that integer. -/
theorem Value.Spells.denotes {value : Value} {n : Int64} (h : value.Spells n) :
    ∃ s, value = .scalar s ∧ s.Denotes [n] := by
  cases h with
  | int => exact ⟨.int n, rfl, .int n⟩
  | @text s _ numeral integer padded =>
    refine ⟨.text s, rfl, ListForm.mapM_integer?_items_eq_some_iff.mp ?_⟩
    have listed : Text.Lists [numeral] s.toList :=
      ⟨[numeral], .cons ⟨[], [], .nil, .nil, by simp⟩ .nil, by simpa using padded⟩
    have items : Text.items s.toList = [numeral] :=
      Text.items_of_lists listed (List.forall_mem_singleton.mpr integer.isName)
    simp [items, Text.integer?_eq_some_iff.mpr integer]

/-- What is coerced to an integer spells it or is a flag. -/
theorem Coercion.toInteger_eq_ok_iff {name : String} {value coerced : Value} :
    toInteger name value = .ok coerced ↔
      ∃ n, coerced = .int n ∧ (value.Spells n ∨ ∃ b, value = .scalar (.bool b) ∧ n = flag b) := by
  constructor
  · intro ok
    unfold toInteger at ok
    split at ok
    · rename_i n
      exact ⟨n, (Except.ok.inj ok).symm, .inl (.int n)⟩
    · rename_i b
      exact ⟨flag b, (Except.ok.inj ok).symm, .inr ⟨b, rfl, rfl⟩⟩
    · rename_i s
      split at ok
      · rename_i n read
        exact ⟨n, (Except.ok.inj ok).symm, .inl (Value.spells_text_iff.mpr read)⟩
      · cases ok
    · cases ok
  · rintro ⟨n, rfl, spells | ⟨b, rfl, rfl⟩⟩
    · cases value with
      | scalar s =>
        cases s with
        | int m =>
          cases spells
          rfl
        | text s => simp [toInteger, Value.spells_text_iff.mp spells]
        | _ => cases spells
      | _ => cases spells
    · rfl

namespace Store

variable {store : Store} {name : String}

theorem ints?_eq_some_iff {ns : List Int64} :
    store.ints? name = some ns ↔ store.get? name = some (.ints ns) := by
  unfold ints? Value.ints
  cases store.get? name with
  | none => simp
  | some value =>
    cases value with
    | list elements => simp [Scalar.mapM_int?_eq_some_iff]
    | _ => simp

theorem int?_eq_some_iff {n : Int64} :
    store.int? name = some n ↔ ∃ value, store.get? name = some value ∧ value.Spells n := by
  unfold int?
  cases held : store.get? name with
  | none => simp
  | some value =>
    simp only [Option.some.injEq, exists_eq_left']
    cases value with
    | scalar s =>
      cases s with
      | int m =>
        constructor
        · rintro ⟨⟩
          exact .int n
        · rintro ⟨⟩
          rfl
      | text s => exact Value.spells_text_iff.symm
      | _ => exact iff_of_false nofun nofun
    | _ => exact iff_of_false nofun nofun

end Store

namespace Operation

variable {store changed : Store} {name : String} {n : Int64}

theorem run_coerce_integer_of_int? (read : store.int? name = some n) :
    (coerce .integer name).run store = (store.insert name (.int n), .coerced none) := by
  obtain ⟨value, held, spells⟩ := Store.int?_eq_some_iff.mp read
  exact run_coerce_ok held (Coercion.toInteger_eq_ok_iff.mpr ⟨n, rfl, .inl spells⟩)

theorem run_coerce_integers_of_int? (read : store.int? name = some n) :
    (coerce (.listOf .integers) name).run store =
      (store.insert name (.ints [n]), .coerced none) := by
  obtain ⟨value, held, spells⟩ := Store.int?_eq_some_iff.mp read
  obtain ⟨s, rfl, denotes⟩ := spells.denotes
  exact (run_coerce_integers_eq_none_iff held (.scalar s)).mpr ⟨[[n]], .cons denotes .nil, rfl⟩

theorem run_coerce_integers_of_ints? {ns : List Int64} (read : store.ints? name = some ns) :
    (coerce (.listOf .integers) name).run store = (store, .coerced none) := by
  have held := Store.ints?_eq_some_iff.mp read
  have same := run_coerce_ok (c := .listOf .integers) held (Coercion.toListOf_ints name ns)
  rwa [NameMap.insert_get? held] at same

/-- What coercion to an integer leaves is what is read there, and was read there before unless the
value was a flag. -/
theorem exists_int?_of_run_coerce_integer (present : store.get? name ≠ none)
    (run : (coerce .integer name).run store = (changed, .coerced none)) :
    ∃ n, changed.get? name = some (.int n) ∧ changed.int? name = some n ∧
      (store.int? name = some n ∨
        ∃ b, store.get? name = some (.scalar (.bool b)) ∧ n = flag b) := by
  obtain ⟨value, held⟩ := Option.ne_none_iff_exists'.mp present
  obtain ⟨coerced, ok, rfl⟩ := (run_coerce_eq_none_iff held).mp run
  obtain ⟨n, rfl, before⟩ := Coercion.toInteger_eq_ok_iff.mp ok
  have written : (store.insert name (.int n)).get? name = some (.int n) := by
    rw [NameMap.get?_insert, if_pos rfl]
  refine ⟨n, written, Store.int?_eq_some_iff.mpr ⟨_, written, .int n⟩, ?_⟩
  rcases before with spells | ⟨b, rfl, flagged⟩
  · exact .inl (Store.int?_eq_some_iff.mpr ⟨value, held, spells⟩)
  · exact .inr ⟨b, held, flagged⟩

end Operation

end OperatorGraph.Attribute
