import OperatorGraph.Proofs.Attribute.BlankElements
import OperatorGraph.Proofs.Attribute.Operation
import OperatorGraph.Proofs.Text.Listing

/-!
Lists of names, such as those of activations. Main statement: coercion to texts makes names of all
texts that list some, refuses everything else, and finds the names again that were written with
commas or as a list.
-/

namespace OperatorGraph.Attribute

open Text (Blank IsName parts)

def Value.texts (ws : List String) : Value := .list (ws.map .text)

/-- Whether a text lists names and nothing else: it is blank, or no piece between its commas is. -/
def ListsNames (s : String) : Prop :=
  Blank s.toList ∨ ∀ piece ∈ s.toList.splitOn ',', ¬Blank piece

/-- The pieces of a text without the blanks around them; there are none in a blank text. -/
def namesIn (s : String) : List String :=
  if Blank s.toList then [] else (parts s.toList).map String.ofList

/-- The forms in which names are written: a list of them, or one text with commas. -/
inductive Value.WritesNames : Value → List String → Prop where
  | list (ws : List String) : WritesNames (.texts ws) ws
  | text {ws : List String} {s : String} (written : Text.Lists (ws.map String.toList) s.toList) :
      WritesNames (.text s) ws

theorem namesIn_eq (s : String) : namesIn s = (Text.items s.toList).map String.ofList := by
  rw [namesIn, Text.items_eq]
  split <;> rfl

theorem forall_items_ne_nil_iff {s : String} :
    (∀ item ∈ Text.items s.toList, item ≠ []) ↔ ListsNames s := by
  rw [Text.items_eq, ListsNames]
  by_cases blank : Blank s.toList
  · simp [blank]
  · simp [blank, parts, Text.trim_eq_nil_iff]

/-- What a text lists are names. -/
theorem isName_of_mem_namesIn {s w : String} (lists : ListsNames s) (member : w ∈ namesIn s) :
    IsName w.toList := by
  rw [namesIn_eq] at member
  obtain ⟨item, listed, rfl⟩ := List.mem_map.mp member
  have nonempty := forall_items_ne_nil_iff.mpr lists item listed
  rw [String.toList_ofList]
  exact Text.isName_iff.mpr ⟨Text.isItem_of_mem_items listed, nonempty⟩

/-- Names with commas between them and blanks around them are what the text lists. -/
theorem namesIn_of_lists {ws : List String} {s : String} (names : ∀ w ∈ ws, IsName w.toList)
    (written : Text.Lists (ws.map String.toList) s.toList) : ListsNames s ∧ namesIn s = ws := by
  have each : ∀ item ∈ ws.map String.toList, IsName item := List.forall_mem_map.mpr names
  have items : Text.items s.toList = ws.map String.toList := Text.items_of_lists written each
  constructor
  · refine forall_items_ne_nil_iff.mp fun item listed => ?_
    exact (each item (items ▸ listed)).nonempty
  · rw [namesIn_eq, items, List.map_map]
    simp

theorem namesIn_of_isName {w : String} (name : IsName w.toList) :
    ListsNames w ∧ namesIn w = [w] := by
  have padded : Text.Padded w.toList w.toList := ⟨[], [], .nil, .nil, by simp⟩
  have alone : Text.Lists ([w].map String.toList) w.toList :=
    ⟨[w.toList], .cons padded .nil, by simpa using padded⟩
  exact namesIn_of_lists (List.forall_mem_singleton.mpr name) alone

namespace ListForm

theorem mapM_readItem_texts_eq_some_iff {items : List (List Char)} {out : List Scalar} :
    items.mapM texts.readItem = some out ↔
      (∀ item ∈ items, item ≠ []) ∧ out = (items.map String.ofList).map .text := by
  have one (item : List Char) (e : Scalar) : texts.readItem item = some e ↔
      item ≠ [] ∧ Scalar.text (String.ofList item) = e := by simp [readItem]
  simp only [mapM_eq_some_iff, one, List.forall₂_and_left]
  refine and_congr_right fun _ => ?_
  rw [← List.forall₂_map_left_iff (f := fun item => Scalar.text (String.ofList item)),
    List.forall₂_eq_eq_eq, List.map_map]
  exact eq_comm

/-- A list is read as names exactly if all its elements are texts that list some. -/
theorem readAll_texts_eq_ok_iff_listsNames {elements out : List Scalar} :
    texts.readAll elements = .ok out ↔ ∃ ss : List String, elements = ss.map .text ∧
      (∀ s ∈ ss, ListsNames s) ∧ out = (ss.flatMap namesIn).map .text := by
  have listed (ss : List String) : texts.readAll (ss.map .text) = .ok out ↔
      (∀ s ∈ ss, ListsNames s) ∧ out = (ss.flatMap namesIn).map .text := by
    rw [readAll_texts_eq_ok_iff, mapM_readItem_texts_eq_some_iff, List.map_flatMap]
    simp only [← namesIn_eq, ← forall_items_ne_nil_iff, List.forall_mem_flatMap]
  constructor
  · intro read
    obtain ⟨ess, reads, _⟩ := readAll_eq_ok_iff.mp read
    obtain ⟨ss, rfl⟩ : ∃ ss : List String, elements = ss.map .text :=
      exists_map_of_forall fun e member => by
        obtain ⟨es, _, here⟩ := exists_of_mem_left reads member
        cases e with
        | text s => exact ⟨s, rfl⟩
        | _ => cases here
    exact ⟨ss, rfl, (listed ss).mp read⟩
  · rintro ⟨ss, rfl, names⟩
    exact (listed ss).mpr names

end ListForm

namespace Operation

variable {store changed : Store} {name : String} {value : Value}

theorem run_coerce_texts_eq_none_iff {elements : List Scalar} (held : store.get? name = some value)
    (has : value.HasElements elements) :
    (coerce (.listOf .texts) name).run store = (changed, .coerced none) ↔
      ∃ ss : List String, elements = ss.map .text ∧ (∀ s ∈ ss, ListsNames s) ∧
        changed = store.insert name (.texts (ss.flatMap namesIn)) := by
  rw [run_coerce_eq_none_iff held]
  simp only [Coercion.apply, Coercion.toListOf_eq_ok_iff_readAll has,
    ListForm.readAll_texts_eq_ok_iff_listsNames]
  constructor
  · rintro ⟨_, ⟨_, ⟨ss, texts, names, rfl⟩, rfl⟩, rfl⟩
    exact ⟨ss, texts, names, rfl⟩
  · rintro ⟨ss, texts, names, rfl⟩
    exact ⟨_, ⟨_, ⟨ss, texts, names, rfl⟩, rfl⟩, rfl⟩

theorem run_coerce_of_writesNames {ws : List String} (held : store.get? name = some value)
    (written : value.WritesNames ws) (names : ∀ w ∈ ws, IsName w.toList) :
    (coerce (.listOf .texts) name).run store = (store.insert name (.texts ws), .coerced none) := by
  cases written with
  | list =>
    have each : ws.flatMap namesIn = ws.flatMap fun w => [w] :=
      List.flatMap_congr fun w member => (namesIn_of_isName (names w member)).2
    refine (run_coerce_texts_eq_none_iff held (.list _)).mpr ⟨ws, rfl, fun w member => ?_, ?_⟩
    · exact (namesIn_of_isName (names w member)).1
    · rw [each, List.flatMap_singleton']
  | @text _ s written =>
    obtain ⟨lists, same⟩ := namesIn_of_lists names written
    refine (run_coerce_texts_eq_none_iff held (.scalar _)).mpr ⟨[s], rfl, ?_, ?_⟩
    · exact List.forall_mem_singleton.mpr lists
    · rw [List.flatMap_singleton, same]

theorem exists_names_of_run_coerce
    (run : (coerce (.listOf .texts) name).run store = (changed, .coerced none))
    (holds : changed.get? name = some value) :
    ∃ ws, value = .texts ws ∧ ∀ w ∈ ws, IsName w.toList := by
  rcases run_coerce_cases (.listOf .texts) name store with ⟨absent, eq⟩ | ⟨_, _, _, _, eq⟩ |
    ⟨before, coerced, held, ok, eq⟩
  · cases eq.symm.trans run
    cases absent.symm.trans holds
  · cases eq.symm.trans run
  · cases eq.symm.trans run
    rw [NameMap.get?_insert, if_pos rfl] at holds
    cases Option.some.inj holds
    obtain ⟨elements, out, _, read, rfl⟩ := Coercion.toListOf_eq_ok_iff.mp ok
    obtain ⟨ss, _, lists, rfl⟩ := ListForm.readAll_texts_eq_ok_iff_listsNames.mp read
    refine ⟨ss.flatMap namesIn, rfl, fun w member => ?_⟩
    obtain ⟨s, inside, listed⟩ := List.mem_flatMap.mp member
    exact isName_of_mem_namesIn (lists s inside) listed

/-- Coercion to texts succeeds exactly if every element is a text that lists names, and leaves the
names of all of them. Whatever is there when it has succeeded is a list of names, and names that
were written with commas and blanks or as a list are the ones that it leaves. -/
theorem run_coerce_texts (store : Store) (name : String) :
    (∀ value elements changed, store.get? name = some value → value.HasElements elements →
      ((coerce (.listOf .texts) name).run store = (changed, .coerced none) ↔
        ∃ ss : List String, elements = ss.map .text ∧ (∀ s ∈ ss, ListsNames s) ∧
          changed = store.insert name (.texts (ss.flatMap namesIn)))) ∧
      (∀ changed value, (coerce (.listOf .texts) name).run store = (changed, .coerced none) →
        changed.get? name = some value → ∃ ws, value = .texts ws ∧ ∀ w ∈ ws, IsName w.toList) ∧
      ∀ value ws, store.get? name = some value → value.WritesNames ws →
        (∀ w ∈ ws, IsName w.toList) →
        (coerce (.listOf .texts) name).run store =
          (store.insert name (.texts ws), .coerced none) := by
  refine ⟨fun value elements changed held has => ?_, fun changed value run holds => ?_,
    fun value ws held written names => ?_⟩
  · exact run_coerce_texts_eq_none_iff held has
  · exact exists_names_of_run_coerce run holds
  · exact run_coerce_of_writesNames held written names

end Operation

end OperatorGraph.Attribute
