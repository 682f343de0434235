import OperatorGraph.Attribute.Operation
import OperatorGraph.Proofs.Attribute.Coercion
import OperatorGraph.Proofs.Text.Integer

/-!
What is read as a list of integers. A scalar denotes some integers or nothing at all, which a grammar
of the pieces of a text says. Main statement: coercion to integers joins what the elements denote, or
refuses the first one that denotes nothing.
-/

namespace OperatorGraph.Attribute

open Text (Blank IsInteger Padded)

/-- Which integers a scalar denotes. A text is blank, or its pieces between commas are integers with
blanks around them. No float denotes any. -/
inductive Scalar.Denotes : Scalar → List Int64 → Prop where
  | int (n : Int64) : Denotes (.int n) [n]
  | unset : Denotes (.bool false) [0]
  | set : Denotes (.bool true) [1]
  | blank {s : String} (blank : Blank s.toList) : Denotes (.text s) []
  | listed {s : String} {ns : List Int64} (filled : ¬Blank s.toList)
      (pieces : List.Forall₂
        (fun piece n => ∃ numeral, IsInteger numeral n.toInt ∧ Padded numeral piece)
        (s.toList.splitOn ',') ns) :
      Denotes (.text s) ns

namespace ListForm

theorem mapM_integer?_items_eq_some_iff {s : String} {ns : List Int64} :
    (Text.items s.toList).mapM Text.integer? = some ns ↔ (Scalar.text s).Denotes ns := by
  rw [Text.mapM_items_eq_some_iff, Text.parts, List.forall₂_map_left_iff]
  simp only [Text.integer?_trim_eq_some_iff]
  constructor
  · rintro (⟨blank, rfl⟩ | ⟨filled, pieces⟩)
    · exact .blank blank
    · exact .listed filled pieces
  · rintro (_ | _ | _ | blank | ⟨filled, pieces⟩)
    · exact .inl ⟨blank, rfl⟩
    · exact .inr ⟨filled, pieces⟩

/-- What is read from a scalar is what it denotes. -/
theorem readInteger_eq_some_iff {s : Scalar} {es : List Scalar} :
    integers.read s = some es ↔ ∃ ns, s.Denotes ns ∧ es = ns.map .int := by
  cases s with
  | int n =>
    constructor
    · rintro ⟨⟩
      exact ⟨[n], .int n, rfl⟩
    · rintro ⟨_, ⟨⟩, rfl⟩
      rfl
  | float x =>
    constructor
    · rintro ⟨⟩
    · rintro ⟨_, ⟨⟩, _⟩
  | bool b =>
    constructor
    · rintro ⟨⟩
      cases b with
      | false => exact ⟨[0], .unset, rfl⟩
      | true => exact ⟨[1], .set, rfl⟩
    · rintro ⟨_, ⟨⟩ | ⟨⟩, rfl⟩ <;> rfl
  | text s =>
    simp only [read, readInteger, mapM_map_eq, Option.map_eq_some_iff,
      mapM_integer?_items_eq_some_iff]
    exact exists_congr fun ns => and_congr_right fun _ => eq_comm

theorem exists_readInteger_iff {s : Scalar} :
    (∃ es, integers.read s = some es) ↔ ∃ ns, s.Denotes ns := by
  simp only [readInteger_eq_some_iff]
  constructor
  · rintro ⟨_, ns, denotes, _⟩
    exact ⟨ns, denotes⟩
  · rintro ⟨ns, denotes⟩
    exact ⟨_, ns, denotes, rfl⟩

theorem readInteger_eq_none_iff {s : Scalar} :
    integers.read s = none ↔ ¬∃ ns, s.Denotes ns := by
  rw [← exists_readInteger_iff, Option.eq_none_iff_forall_ne_some, not_exists]

theorem readAll_integers_eq_ok_iff {ss out : List Scalar} :
    integers.readAll ss = .ok out ↔
      ∃ nss, List.Forall₂ Scalar.Denotes ss nss ∧ out = nss.flatten.map .int := by
  rw [readAll_eq_ok_iff]
  simp only [readInteger_eq_some_iff]
  constructor
  · rintro ⟨ess, reads, rfl⟩
    obtain ⟨nss, denote, written⟩ := exists_between reads
    have pointwise : List.Forall₂ (· = ·) (nss.map (List.map Scalar.int)) ess :=
      List.forall₂_map_left_iff.mpr (written.imp fun _ _ => Eq.symm)
    have same : nss.map (List.map Scalar.int) = ess := List.forall₂_eq_eq_eq ▸ pointwise
    exact ⟨nss, denote, by rw [← same, List.map_flatten]⟩
  · rintro ⟨nss, denote, rfl⟩
    refine ⟨nss.map (List.map .int), List.forall₂_map_right_iff.mpr (denote.imp fun s ns h => ?_),
      List.map_flatten⟩
    exact ⟨ns, h, rfl⟩

end ListForm

/-- Whether a value is a list of some elements, or the scalar that is the only one of them. -/
inductive Value.HasElements : Value → List Scalar → Prop where
  | list (elements : List Scalar) : HasElements (.list elements) elements
  | scalar (s : Scalar) : HasElements (.scalar s) [s]

theorem Value.HasElements.elements_eq {value : Value} {elements : List Scalar}
    (h : value.HasElements elements) (name : String) :
    Coercion.elements name value = .ok elements := by
  cases h <;> rfl

namespace Coercion

variable {form : ListForm} {name : String} {value : Value} {elements : List Scalar}

theorem toListOf_eq_ok_iff_readAll (has : value.HasElements elements) {coerced : Value} :
    toListOf form name value = .ok coerced ↔
      ∃ out, form.readAll elements = .ok out ∧ coerced = .list out := by
  simp [toListOf_eq_ok_iff, has.elements_eq]

theorem toListOf_eq_error_iff_readAll (has : value.HasElements elements) {fault : Fault} :
    toListOf form name value = .error fault ↔
      ∃ failed, form.readAll elements = .error failed ∧
        fault = .unparseable name failed.display form.wanted := by
  unfold toListOf
  rw [has.elements_eq]
  cases read : form.readAll elements <;> simp [bind, Except.bind, read, eq_comm]

end Coercion

namespace Operation

variable {c : Coercion} {store changed : Store} {name : String} {value : Value}

theorem run_coerce_eq_none_iff (held : store.get? name = some value) :
    (coerce c name).run store = (changed, .coerced none) ↔
      ∃ coerced, c.apply name value = .ok coerced ∧ changed = store.insert name coerced := by
  simp only [run, Store.coerce, held]
  cases c.apply name value <;> simp [Except.map, eq_comm]

theorem run_coerce_eq_some_iff (held : store.get? name = some value) {fault : Fault} :
    (coerce c name).run store = (changed, .coerced (some fault)) ↔
      c.apply name value = .error fault ∧ changed = store := by
  simp only [run, Store.coerce, held]
  cases c.apply name value <;> simp [Except.map, eq_comm, and_comm]

theorem run_coerce_integers_eq_none_iff {elements : List Scalar} (held : store.get? name = some value)
    (has : value.HasElements elements) :
    (coerce (.listOf .integers) name).run store = (changed, .coerced none) ↔
      ∃ nss, List.Forall₂ Scalar.Denotes elements nss ∧
        changed = store.insert name (.ints nss.flatten) := by
  rw [run_coerce_eq_none_iff held]
  simp only [Coercion.apply, Coercion.toListOf_eq_ok_iff_readAll has,
    ListForm.readAll_integers_eq_ok_iff]
  constructor
  · rintro ⟨_, ⟨_, ⟨nss, denote, rfl⟩, rfl⟩, rfl⟩
    exact ⟨nss, denote, rfl⟩
  · rintro ⟨nss, denote, rfl⟩
    exact ⟨_, ⟨_, ⟨nss, denote, rfl⟩, rfl⟩, rfl⟩

theorem run_coerce_integers_eq_some_iff {elements : List Scalar} (held : store.get? name = some value)
    (has : value.HasElements elements) {fault : Fault} :
    (coerce (.listOf .integers) name).run store = (changed, .coerced (some fault)) ↔
      ∃ before failed after, elements = before ++ failed :: after ∧
        (∀ s ∈ before, ∃ ns, s.Denotes ns) ∧ (¬∃ ns, failed.Denotes ns) ∧
        fault = .unparseable name failed.display .integer ∧ changed = store := by
  rw [run_coerce_eq_some_iff held]
  simp only [Coercion.apply, Coercion.toListOf_eq_error_iff_readAll has,
    ListForm.readAll_eq_error_iff, ListForm.exists_readInteger_iff,
    ListForm.readInteger_eq_none_iff]
  constructor
  · rintro ⟨⟨failed, ⟨before, after, split, denote, none⟩, named⟩, same⟩
    exact ⟨before, failed, after, split, denote, none, named, same⟩
  · rintro ⟨before, failed, after, split, denote, none, named, same⟩
    exact ⟨⟨failed, ⟨before, after, split, denote, none⟩, named⟩, same⟩

/-- Coercion to integers joins the integers that the elements denote. If one denotes nothing, the
first such is reported and the store is left as it is. -/
theorem run_coerce_integers {elements : List Scalar} (held : store.get? name = some value)
    (has : value.HasElements elements) :
    (∀ changed, (coerce (.listOf .integers) name).run store = (changed, .coerced none) ↔
      ∃ nss, List.Forall₂ Scalar.Denotes elements nss ∧
        changed = store.insert name (.ints nss.flatten)) ∧
      ∀ changed fault,
        (coerce (.listOf .integers) name).run store = (changed, .coerced (some fault)) ↔
          ∃ before failed after, elements = before ++ failed :: after ∧
            (∀ s ∈ before, ∃ ns, s.Denotes ns) ∧ (¬∃ ns, failed.Denotes ns) ∧
            fault = .unparseable name failed.display .integer ∧ changed = store :=
  ⟨fun _ => run_coerce_integers_eq_none_iff held has,
    fun _ _ => run_coerce_integers_eq_some_iff held has⟩

/-- The smallest integer, a text with signs and blanks, one without items, and a flag. -/
theorem run_coerce_integers_mixed :
    let elements : List Scalar :=
      [.int Int64.minValue, .text " +7 ,-3\t", .text " ", .bool true]
    let store : Store := .ofList [("axes", .list elements)]
    store.get? "axes" = some (.list elements) ∧ (Value.list elements).HasElements elements ∧
      List.Forall₂ Scalar.Denotes elements [[Int64.minValue], [7, -3], [], [1]] ∧
      (coerce (.listOf .integers) "axes").run store =
        (store.insert "axes" (.ints [Int64.minValue, 7, -3, 1]), .coerced none) := by
  intro elements store
  have held : store.get? "axes" = some (.list elements) := by decide
  have plus : IsInteger ['+', '7'] (7 : Int64).toInt := .plus ⟨by decide, by simp, rfl⟩
  have minus : IsInteger ['-', '3'] (-3 : Int64).toInt := .minus ⟨by decide, by simp, rfl⟩
  have first : Padded ['+', '7'] [' ', '+', '7', ' '] := ⟨[' '], [' '], by decide, by decide, rfl⟩
  have second : Padded ['-', '3'] ['-', '3', '\t'] := ⟨[], ['\t'], by decide, by decide, rfl⟩
  have listed : Scalar.Denotes (.text " +7 ,-3\t") [7, -3] :=
    .listed (by decide) (.cons ⟨_, plus, first⟩ (.cons ⟨_, minus, second⟩ .nil))
  have denote : List.Forall₂ Scalar.Denotes elements [[Int64.minValue], [7, -3], [], [1]] :=
    .cons (.int _) (.cons listed (.cons (.blank (by decide)) (.cons .set .nil)))
  exact ⟨held, .list elements, denote,
    ((run_coerce_integers held (.list elements)).1 _).mpr ⟨_, denote, rfl⟩⟩

end Operation

end OperatorGraph.Attribute
