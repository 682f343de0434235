import OperatorGraph.Proofs.Attribute.Denotation
import OperatorGraph.Proofs.NameMap

/-!
Blank texts in a list. Each element of a list is read as a list of its own, so a blank one is the
empty list and is passed over, while a blank item of a text is refused. Main statement: a list of
texts is read as the text that joins those of them that are not blank, and as the text that joins them
all only if there is no blank one among several, or the list cannot be read at all.
-/

namespace OperatorGraph.Attribute

open Text (Blank parts)

namespace ListForm

/-- The element that an item of a text stands for. -/
def readItem : ListForm → List Char → Option Scalar
  | integers, item => (Text.integer? item).map .int
  | floats, item => (Text.numeral? item).map fun numeral => float numeral.toNumber
  | texts, item => if item = [] then none else some (.text (String.ofList item))

variable {form : ListForm}

theorem read_text (form : ListForm) (s : String) :
    form.read (.text s) = (Text.items s.toList).mapM form.readItem := by
  cases form <;> rfl

/-- No form has an empty element. -/
theorem readItem_nil (form : ListForm) : form.readItem [] = none := by
  cases form <;> rfl

theorem read_of_filled {s : String} (filled : ¬Blank s.toList) :
    form.read (.text s) = (parts s.toList).mapM form.readItem := by
  rw [read_text, Text.items_eq, if_neg filled]

/-- A list of texts is read item by item. -/
theorem readAll_texts_eq_ok_iff {ts : List String} {out : List Scalar} :
    form.readAll (ts.map .text) = .ok out ↔
      (ts.flatMap fun t => Text.items t.toList).mapM form.readItem = some out := by
  induction ts generalizing out with
  | nil => simp [readAll]
  | cons t rest ih =>
    rw [List.map_cons, List.flatMap_cons, List.mapM_append, ← read_text]
    cases first : form.read (.text t) with
    | none => simp [readAll_cons_none _ first]
    | some es => simp [readAll_cons_some _ first, map_except_eq_ok_iff, ih, Option.bind_eq_some_iff]

theorem exists_readAll_texts_iff {ts : List String} :
    (∃ out, form.readAll (ts.map .text) = .ok out) ↔
      ∀ t ∈ ts, ∃ es, form.read (.text t) = some es := by
  simp only [readAll_texts_eq_ok_iff, read_text, exists_mapM_eq_some_iff, List.mem_flatMap]
  exact ⟨fun all t member item listed => all item ⟨t, member, listed⟩,
    fun all item ⟨t, member, listed⟩ => all t member item listed⟩

theorem readAll_text_eq_ok_iff {s : String} {out : List Scalar} :
    form.readAll [.text s] = .ok out ↔ form.read (.text s) = some out := by
  have singleton : form.readAll ([s].map .text) = .ok out ↔ _ := readAll_texts_eq_ok_iff
  simpa [read_text] using singleton

end ListForm

/-- The text that lists some texts. -/
def joined (ts : List String) : String := ",".intercalate ts

theorem toList_joined (ts : List String) :
    (joined ts).toList = [','].intercalate (ts.map String.toList) :=
  String.toList_intercalate

theorem parts_joined {ts : List String} (nonempty : ts ≠ []) :
    parts (joined ts).toList = ts.flatMap fun t => parts t.toList := by
  rw [toList_joined, Text.parts_intercalate (by simpa using nonempty), List.flatMap_map]

theorem not_blank_joined {first : String} {rest : List String} (several : rest ≠ []) :
    ¬Blank (joined (first :: rest)).toList := fun blank => by
  have few := Text.length_le_one_of_blank_intercalate (toList_joined _ ▸ blank)
  exact several (List.length_eq_zero_iff.mp (by simpa using few))

theorem joined_singleton (t : String) : joined [t] = t := String.intercalate_singleton

theorem items_joined {ts : List String} (filled : ∀ t ∈ ts, ¬Blank t.toList) :
    Text.items (joined ts).toList = ts.flatMap fun t => Text.items t.toList := by
  have each : (ts.flatMap fun t => Text.items t.toList) = ts.flatMap fun t => parts t.toList :=
    List.flatMap_congr fun t member => by rw [Text.items_eq, if_neg (filled t member)]
  cases ts with
  | nil => rfl
  | cons first rest =>
    by_cases alone : rest = []
    · simp [alone, joined_singleton]
    · rw [each, ← parts_joined (List.cons_ne_nil _ _), Text.items_eq,
        if_neg (not_blank_joined alone)]

theorem flatMap_items_filter (ts : List String) :
    ((ts.filter fun t => ¬Blank t.toList).flatMap fun t => Text.items t.toList) =
      ts.flatMap fun t => Text.items t.toList := by
  induction ts with
  | nil => rfl
  | cons t rest ih =>
    by_cases blank : Blank t.toList
    · rw [List.filter_cons_of_neg (by simpa using blank), ih, List.flatMap_cons, Text.items_eq,
        if_pos blank, List.nil_append]
    · rw [List.filter_cons_of_pos (by simpa using blank), List.flatMap_cons, ih, List.flatMap_cons]

namespace ListForm

variable {form : ListForm}

/-- A list of texts is read as the text that joins those that are not blank. -/
theorem readAll_texts_eq_ok_iff_joined {ts : List String} {out : List Scalar} :
    form.readAll (ts.map .text) = .ok out ↔
      form.readAll [.text (joined (ts.filter fun t => ¬Blank t.toList))] = .ok out := by
  rw [readAll_text_eq_ok_iff, read_text, readAll_texts_eq_ok_iff, items_joined, flatMap_items_filter]
  simp [List.mem_filter]

/-- The text that joins several texts can be read if all of them can and none is blank. -/
theorem exists_readAll_joined_iff {first : String} {rest : List String} (several : rest ≠ []) :
    (∃ out, form.readAll [.text (joined (first :: rest))] = .ok out) ↔
      ∀ t ∈ first :: rest, ¬Blank t.toList ∧ ∃ es, form.read (.text t) = some es := by
  simp only [readAll_text_eq_ok_iff, read_of_filled (not_blank_joined several),
    parts_joined (List.cons_ne_nil _ _), exists_mapM_eq_some_iff, List.mem_flatMap]
  constructor
  · intro all t member
    have filled : ¬Blank t.toList := fun blank => by
      obtain ⟨e, read⟩ := all [] ⟨t, member, by simp [blank.parts_eq]⟩
      cases (readItem_nil form).symm.trans read
    refine ⟨filled, ?_⟩
    rw [read_of_filled filled, exists_mapM_eq_some_iff]
    exact fun item listed => all item ⟨t, member, listed⟩
  · rintro all item ⟨t, member, listed⟩
    obtain ⟨filled, readable⟩ := all t member
    rw [read_of_filled filled, exists_mapM_eq_some_iff] at readable
    exact readable item listed

/-- A list of texts and the text that joins them are read alike exactly if the list has one element,
or no blank one, or one that cannot be read. -/
theorem readAll_texts_iff_joined (first : String) (rest : List String) :
    (∀ out, form.readAll ((first :: rest).map .text) = .ok out ↔
      form.readAll [.text (joined (first :: rest))] = .ok out) ↔
      rest = [] ∨ (∀ t ∈ first :: rest, ¬Blank t.toList) ∨
        ∃ t ∈ first :: rest, form.read (.text t) = none := by
  constructor
  · intro same
    by_contra others
    obtain ⟨several, ⟨t, member, blank⟩, readable⟩ : rest ≠ [] ∧
        (∃ t ∈ first :: rest, Blank t.toList) ∧
        ∀ t ∈ first :: rest, form.read (.text t) ≠ none := by
      push Not at others
      exact others
    obtain ⟨out, listed⟩ := exists_readAll_texts_iff.mpr fun t member =>
      Option.ne_none_iff_exists'.mp (readable t member)
    have written := (exists_readAll_joined_iff several).mp ⟨out, (same out).mp listed⟩
    exact (written t member).1 blank
  · rintro (rfl | filled | ⟨t, member, unreadable⟩) out
    · rw [joined_singleton]
      rfl
    · rw [readAll_texts_eq_ok_iff_joined, List.filter_eq_self.mpr (by simpa using filled)]
    · have stuck : ¬∀ t ∈ first :: rest, ∃ es, form.read (.text t) = some es := fun all => by
        obtain ⟨es, read⟩ := all t member
        cases unreadable.symm.trans read
      have not_listed : form.readAll ((first :: rest).map .text) ≠ .ok out := fun listed =>
        stuck (exists_readAll_texts_iff.mp ⟨out, listed⟩)
      refine iff_of_false not_listed fun written => ?_
      by_cases alone : rest = []
      · rw [alone, joined_singleton] at written
        exact not_listed (alone ▸ written)
      · exact stuck fun t member => ((exists_readAll_joined_iff alone).mp ⟨out, written⟩ t member).2

end ListForm

namespace Operation

variable {form : ListForm} {store : Store} {name : String}

theorem run_coerce_insert_eq_none_iff {value : Value} {elements : List Scalar}
    (has : value.HasElements elements) {after : Store} :
    (coerce (.listOf form) name).run (store.insert name value) = (after, .coerced none) ↔
      ∃ out, form.readAll elements = .ok out ∧ after = store.insert name (.list out) := by
  have held : (store.insert name value).get? name = some value := by simp [NameMap.get?_insert]
  rw [run_coerce_eq_none_iff held]
  simp only [Coercion.apply, Coercion.toListOf_eq_ok_iff_readAll has, NameMap.insert_insert]
  constructor
  · rintro ⟨_, ⟨out, read, rfl⟩, rfl⟩
    exact ⟨out, read, rfl⟩
  · rintro ⟨out, read, rfl⟩
    exact ⟨_, ⟨out, read, rfl⟩, rfl⟩

/-- Whether a coercion that succeeds on one of two stores succeeds on the other too and leaves the
same there. -/
def SucceedsAlike (c : Coercion) (name : String) (a b : Store) : Prop :=
  ∀ after, (coerce c name).run a = (after, .coerced none) ↔
    (coerce c name).run b = (after, .coerced none)

theorem succeedsAlike_insert_iff {value value' : Value} {elements elements' : List Scalar}
    (has : value.HasElements elements) (has' : value'.HasElements elements') :
    SucceedsAlike (.listOf form) name (store.insert name value) (store.insert name value') ↔
      ∀ out, form.readAll elements = .ok out ↔ form.readAll elements' = .ok out := by
  have same {out out' : List Scalar}
      (h : store.insert name (.list out) = store.insert name (.list out')) : out = out' := by
    have held := congrArg (·.get? name) h
    simpa [NameMap.get?_insert] using held
  simp only [SucceedsAlike, run_coerce_insert_eq_none_iff has, run_coerce_insert_eq_none_iff has']
  constructor
  · intro alike out
    constructor
    · intro read
      obtain ⟨out', read', eq⟩ := (alike _).mp ⟨out, read, rfl⟩
      exact same eq ▸ read'
    · intro read
      obtain ⟨out', read', eq⟩ := (alike _).mpr ⟨out, read, rfl⟩
      exact same eq ▸ read'
  · exact fun reads after => exists_congr fun out => and_congr_left fun _ => reads out

/-- A list of texts is coerced like the text that joins those of them that are not blank. It is
coerced like the text that joins them all exactly if it has one element, or no blank one, or one that
cannot be read. -/
theorem succeedsAlike_joined (form : ListForm) (store : Store) (name first : String)
    (rest : List String) :
    let listed := store.insert name (.list ((first :: rest).map .text))
    let written (ts : List String) := store.insert name (.text (joined ts))
    SucceedsAlike (.listOf form) name listed
        (written ((first :: rest).filter fun t => ¬Blank t.toList)) ∧
      (SucceedsAlike (.listOf form) name listed (written (first :: rest)) ↔
        rest = [] ∨ (∀ t ∈ first :: rest, ¬Blank t.toList) ∨
          ∃ t ∈ first :: rest, form.read (.text t) = none) := by
  intro listed written
  have alike_iff (ts : List String) :
      SucceedsAlike (.listOf form) name listed (written ts) ↔
        ∀ out, form.readAll ((first :: rest).map .text) = .ok out ↔
          form.readAll [.text (joined ts)] = .ok out :=
    succeedsAlike_insert_iff (.list ((first :: rest).map .text)) (.scalar (.text (joined ts)))
  constructor
  · exact (alike_iff _).mpr fun out => ListForm.readAll_texts_eq_ok_iff_joined
  · exact (alike_iff _).trans (ListForm.readAll_texts_iff_joined first rest)

/-- A blank activation between two others is passed over in a list and refused in a text. -/
theorem not_succeedsAlike_joined :
    ¬∀ (form : ListForm) (store : Store) (name first : String) (rest : List String),
      SucceedsAlike (.listOf form) name
        (store.insert name (.list ((first :: rest).map .text)))
        (store.insert name (.text (joined (first :: rest)))) := by
  intro alike
  have same := alike .texts .empty "activations" "sigmoid" ["", "tanh"]
  have read : (coerce (.listOf .texts) "activations").run
      (NameMap.empty.insert "activations" (.list [.text "sigmoid", .text "", .text "tanh"])) =
        (NameMap.empty.insert "activations" (.list [.text "sigmoid", .text "tanh"]),
          .coerced none) := by decide
  exact absurd ((same _).mp read) (by decide)

end Operation

end OperatorGraph.Attribute
