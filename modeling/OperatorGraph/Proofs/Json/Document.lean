import OperatorGraph.Proofs.Json.Float

/-!
Documents and the readers that take their texts apart, whatever the level at which they are
written.
-/

namespace OperatorGraph.Json

namespace Document

variable {layout : Layout} {level : Nat}

theorem writeItems_eq (items : List Document) :
    writeItems layout level items = items.map (write layout level) := by
  induction items with
  | nil => rfl
  | cons item rest ih => simp only [writeItems, List.map_cons, ih]

theorem writeFields_eq (fields : List (String × Document)) :
    writeFields layout level fields =
      fields.map fun field => Reader.fieldText layout field.1 (field.2.write layout level) := by
  induction fields with
  | nil => rfl
  | cons field rest ih => simp only [writeFields, List.map_cons, ih, Reader.fieldText]

end Document

namespace Reader

variable {α β σ : Type} {layout : Layout}

/-- What a reader makes of a document, at any level. -/
def ReadsDocument (layout : Layout) (read : Reader α) (d : Document) (result : Option α) : Prop :=
  ∀ level, Reads read (d.write layout level) result

theorem readsDocument_text (s : String) : ReadsDocument layout string (.text s) (some s) :=
  fun _ => reads_string s

theorem readsDocument_bool (b : Bool) : ReadsDocument layout bool (.bool b) (some b) :=
  fun _ => reads_bool b

theorem readsDocument_int64 (n : Int64) :
    ReadsDocument layout int64 (.integer n.toInt) (some n) := fun _ => reads_int64 n

theorem readsDocument_byte (b : UInt8) :
    ReadsDocument layout byte (.integer b.toNat) (some b) := fun _ => reads_byte b

theorem readsDocument_float (x : Binary64) :
    ReadsDocument layout float (.float x) (Option.guard (·.isFinite) x) := fun _ => reads_float x

theorem readsDocument_label {cases : List (String × α)} {name : String} {a : α}
    (found : cases.lookup name = some a) :
    ReadsDocument layout (label cases) (.text name) (some a) := fun _ => reads_label found

theorem ReadsDocument.map {read : Reader α} {d : Document} {a : α}
    (h : ReadsDocument layout read d (some a)) (f : α → β) :
    ReadsDocument layout (do return f (← read)) d (some (f a)) :=
  fun level => (h level).map f

theorem ReadsDocument.map_guard {read : Reader α} {d : Document} {keeps : α → Bool} {a : α}
    (h : ReadsDocument layout read d (Option.guard keeps a)) (f : α → β) {keeps' : β → Bool}
    (same : keeps' (f a) = keeps a) :
    ReadsDocument layout (do return f (← read)) d (Option.guard keeps' (f a)) := by
  rw [← Reader.guard_map same rfl]
  exact fun level => (h level).map f

theorem readsDocument_list (blank : BlankLayout layout) {read : Reader α} {toJson : β → Document}
    {result : β → Option α} {items : List β}
    (each : ∀ b ∈ items, ReadsDocument layout read (toJson b) (result b)) :
    ReadsDocument layout (list read) (.list (items.map toJson)) (items.mapM result) := by
  intro level
  simp only [Document.write, Document.writeItems_eq, List.map_map]
  exact reads_list blank fun b member => each b member (level + 1)

theorem readsDocument_all (blank : BlankLayout layout) {read : Reader α} {toJson : α → Document}
    (each : ∀ a, ReadsDocument layout read (toJson a) (some a)) (as : List α) :
    ReadsDocument layout (list read) (.list (as.map toJson)) (some as) := by
  have all : as.mapM (some : α → Option α) = some as := by
    simpa using List.mapM_pure (m := Option) (f := id) (l := as)
  rw [← all]
  exact readsDocument_list blank fun a _ => each a

theorem readsDocument_guarded (blank : BlankLayout layout) {read : Reader α} {toJson : α → Document}
    {keeps : α → Bool} (each : ∀ a, ReadsDocument layout read (toJson a) (Option.guard keeps a))
    (as : List α) :
    ReadsDocument layout (list read) (.list (as.map toJson)) (Option.guard (·.all keeps) as) := by
  rw [← mapM_guard]
  exact readsDocument_list blank fun a _ => each a

theorem readsDocument_map (blank : BlankLayout layout) {read : Reader α} {toJson : α → Document}
    {keeps : α → Bool} (each : ∀ a, ReadsDocument layout read (toJson a) (Option.guard keeps a))
    (m : NameMap α) :
    ReadsDocument layout (Reader.map read)
      (.object (m.entries.map fun (name, a) => (name, toJson a)))
      (Option.guard (fun m => m.entries.all fun e => keeps e.2) m) := by
  intro level
  simp only [Document.write, Document.writeFields_eq, List.map_map, Function.comp_def]
  exact reads_map blank level (fun a => each a (level + 1)) m

theorem readsDocument_choice (blank : BlankLayout layout) {cases : List (String × Reader α)}
    {name : String} {read : Reader α} (found : cases.lookup name = some read) {d : Document}
    {result : Option α} (h : ReadsDocument layout read d result) :
    ReadsDocument layout (choice cases) (.object [(name, d)]) result := by
  intro level
  simp only [Document.write, Document.writeFields_eq, List.map_cons, List.map_nil]
  exact reads_choice blank level found (h (level + 1))

/-- What a reader of fields makes of fields with documents. -/
def FoldsDocuments (layout : Layout) (field : σ → String → Reader σ) (s : σ)
    (fields : List (String × Document)) (result : Option σ) : Prop :=
  ∀ level, Folds layout field s (fields.map fun f => (f.1, f.2.write layout level)) result

section Fields

variable {field : σ → String → Reader σ} {s : σ} {name : String} {update : Option α → σ}
  {read : Reader α} {d : Document} {a : α} {result : Option σ} {rest : List (String × Document)}

theorem foldsDocuments_cons (blank : BlankLayout layout)
    (reads : field s name = do return update (← once name none read))
    (h : ReadsDocument layout read d (some a))
    (others : FoldsDocuments layout field (update (some a)) rest result) :
    FoldsDocuments layout field s ((name, d) :: rest) result := by
  intro level
  refine .step (fun after ends => ?_) (others level)
  simp [reads, attempt_once blank (h level) name ends]

/-- The last field decides whether all are read. -/
theorem foldsDocuments_last (blank : BlankLayout layout)
    (reads : field s name = do return update (← once name none read)) {result : Option α}
    (h : ReadsDocument layout read d result) :
    FoldsDocuments layout field s [(name, d)] (result.map fun a => update (some a)) := by
  intro level
  cases result with
  | none =>
    refine .fail fun after ends => ?_
    simp [reads, attempt_once blank (h level) name ends]
  | some a => exact foldsDocuments_cons blank reads h (fun _ => .nil _) level

end Fields

section Records

variable {field : σ → String → Reader σ} {start : σ} {fields : List (String × Document)}
  {complete : σ → Reader α} {a : α} {name : String} {asList : Reader α}

theorem readsDocument_record (blank : BlankLayout layout) {result : Option σ}
    (folds : FoldsDocuments layout field start fields result)
    (completes : ∀ s, result = some s → complete s = pure a) :
    ReadsDocument layout (record name asList (Reader.fields field start >>= complete))
      (.object fields) (result.map fun _ => a) := by
  intro level
  have reads := reads_record blank level name asList (folds (level + 1)) completes
  simpa only [Document.write, Document.writeFields_eq, List.map_map, Function.comp_def] using reads

/-- A structure is read if the part that its last field holds is. -/
theorem readsDocument_guardedRecord {keeps' : α → Bool} (blank : BlankLayout layout)
    (keeps : β → Bool) (b : β) (last : β → σ)
    (folds : FoldsDocuments layout field start fields ((Option.guard keeps b).map last))
    (completes : complete (last b) = pure a) (same : keeps' a = keeps b) :
    ReadsDocument layout (record name asList (Reader.fields field start >>= complete))
      (.object fields) (Option.guard keeps' a) := by
  have guarded : ((Option.guard keeps b).map last).map (fun _ => a) = Option.guard keeps' a := by
    rw [Option.map_map]
    exact guard_map same rfl
  rw [← guarded]
  refine readsDocument_record blank folds fun s found => ?_
  obtain ⟨_, kept, rfl⟩ := Option.map_eq_some_iff.mp found
  obtain ⟨rfl, _⟩ := Option.guard_eq_some_iff.mp kept
  exact completes

end Records

/-- A whole text is read if nothing but a document stands in it. -/
theorem run_ofList {read : Reader α} {text : List Char} {result : Option α}
    (h : Reads read text result) : (run read (String.ofList text)).toOption = result := by
  have alone : attempt read (text ++ []) = result.map (·, []) :=
    h.start fun _ first => nomatch first
  have toOption {β : Type} (e : Except Fault (α × β)) :
      (e.map Prod.fst).toOption = e.toOption.map Prod.fst := by
    cases e <;> rfl
  unfold run
  rw [toOption, ← attempt, String.toList_ofList, attempt_bind, ← List.append_nil text, alone]
  cases result <;> rfl

end Reader

end OperatorGraph.Json
