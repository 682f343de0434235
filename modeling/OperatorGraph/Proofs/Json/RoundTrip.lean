import OperatorGraph.Json.File
import OperatorGraph.Proofs.Json.Document
import OperatorGraph.Proofs.Text.Utf8

/-!
Graphs read back from their JSON text. A graph is read as it was unless it holds a float that is
not finite: such a float is written as null and keeps the text from being read.
-/

namespace OperatorGraph

open Json (Document Layout)
open Json.Reader

variable {layout : Layout}

namespace Attribute

def Scalar.isFinite : Scalar → Bool
  | .float x => x.isFinite
  | _ => true

def Value.isFinite : Value → Bool
  | .scalar s => s.isFinite
  | .list elements => elements.all Scalar.isFinite
  | .payload _ => true

def Store.isFinite (store : Store) : Bool := store.entries.all fun e => e.2.isFinite

end Attribute

def Node.isFinite (n : Node) : Bool := n.attributes.isFinite

def Graph.isFinite (g : Graph) : Bool := g.nodes.all Node.isFinite

namespace Attribute

theorem Scalar.reads (blank : BlankLayout layout) (s : Scalar) :
    ReadsDocument layout Scalar.ofJson s.toJson (Option.guard Scalar.isFinite s) := by
  cases s with
  | int n => exact readsDocument_choice blank rfl ((readsDocument_int64 n).map Scalar.int)
  | float x =>
    exact readsDocument_choice blank rfl ((readsDocument_float x).map_guard Scalar.float rfl)
  | bool b => exact readsDocument_choice blank rfl ((readsDocument_bool b).map Scalar.bool)
  | text s => exact readsDocument_choice blank rfl ((readsDocument_text s).map Scalar.text)

theorem PayloadKind.reads (kind : PayloadKind) :
    ReadsDocument layout PayloadKind.ofJson (.text kind.label) (some kind) := by
  cases kind with
  | tensor => exact readsDocument_label rfl
  | graph => exact readsDocument_label rfl

theorem Payload.reads (blank : BlankLayout layout) (p : Payload) :
    ReadsDocument layout Payload.ofJson p.toJson (some p) := by
  have folds : FoldsDocuments layout Payload.Draft.read {}
      [("kind", .text p.kind.label), ("bytes", .list (p.bytes.map fun b => .integer b.toNat))]
      (some ⟨some p.kind, some p.bytes⟩) := by
    refine foldsDocuments_cons blank rfl p.kind.reads ?_
    exact foldsDocuments_last blank rfl (readsDocument_all blank readsDocument_byte p.bytes)
  refine readsDocument_record blank folds ?_
  rintro _ ⟨⟩
  rfl

theorem Value.reads (blank : BlankLayout layout) (v : Value) :
    ReadsDocument layout Value.ofJson v.toJson (Option.guard Value.isFinite v) := by
  cases v with
  | scalar s => exact readsDocument_choice blank rfl ((s.reads blank).map_guard Value.scalar rfl)
  | list elements =>
    have read := readsDocument_guarded blank (Scalar.reads blank) elements
    exact readsDocument_choice blank rfl (read.map_guard Value.list rfl)
  | payload p => exact readsDocument_choice blank rfl ((p.reads blank).map Value.payload)

theorem Store.reads (blank : BlankLayout layout) (store : Store) :
    ReadsDocument layout Store.ofJson store.toJson (Option.guard Store.isFinite store) :=
  readsDocument_map blank (Value.reads blank) store

end Attribute

theorem readsDocument_name (name : Option String) :
    ReadsDocument layout readName (nameToJson name) (some name) := by
  intro level
  cases name with
  | none => exact reads_none Json.Reader.string
  | some s => exact reads_some (reads_string s) (by simp [Json.writeText])

theorem readsDocument_texts (blank : BlankLayout layout) (ss : List String) :
    ReadsDocument layout readTexts (textsToJson ss) (some ss) :=
  readsDocument_all blank readsDocument_text ss

theorem OpsetImport.reads (blank : BlankLayout layout) (o : OpsetImport) :
    ReadsDocument layout OpsetImport.ofJson o.toJson (some o) := by
  have folds : FoldsDocuments layout OpsetImport.Draft.read {}
      [("domain", .text o.domain), ("version", .integer o.version.toInt)]
      (some ⟨some o.domain, some o.version⟩) := by
    refine foldsDocuments_cons blank rfl (readsDocument_text o.domain) ?_
    exact foldsDocuments_last blank rfl (readsDocument_int64 o.version)
  refine readsDocument_record blank folds ?_
  rintro _ ⟨⟩
  rfl

theorem Node.reads (blank : BlankLayout layout) (n : Node) :
    ReadsDocument layout Node.ofJson n.toJson (Option.guard Node.isFinite n) := by
  refine readsDocument_guardedRecord blank Attribute.Store.isFinite n.attributes
    (fun attributes =>
      { opType := n.opType, name := some n.name, domain := n.domain, inputs := n.inputs,
        outputs := n.outputs, attributes })
    ?_ rfl rfl
  refine foldsDocuments_cons blank rfl (readsDocument_text n.opType) ?_
  refine foldsDocuments_cons blank rfl (readsDocument_name n.name) ?_
  refine foldsDocuments_cons blank rfl (readsDocument_text n.domain) ?_
  refine foldsDocuments_cons blank rfl (readsDocument_texts blank n.inputs) ?_
  refine foldsDocuments_cons blank rfl (readsDocument_texts blank n.outputs) ?_
  exact foldsDocuments_last blank rfl (n.attributes.reads blank)

theorem Graph.reads (blank : BlankLayout layout) (g : Graph) :
    ReadsDocument layout Graph.ofJson g.toJson (Option.guard Graph.isFinite g) := by
  refine readsDocument_guardedRecord blank (·.all Node.isFinite) g.nodes
    (fun nodes =>
      { name := some g.name, opsetImports := g.opsetImports, inputs := g.inputs,
        outputs := g.outputs, nodes })
    ?_ rfl rfl
  refine foldsDocuments_cons blank rfl (readsDocument_name g.name) ?_
  refine foldsDocuments_cons blank rfl
    (readsDocument_all blank (OpsetImport.reads blank) g.opsetImports) ?_
  refine foldsDocuments_cons blank rfl (readsDocument_texts blank g.inputs) ?_
  refine foldsDocuments_cons blank rfl (readsDocument_texts blank g.outputs) ?_
  exact foldsDocuments_last blank rfl (readsDocument_guarded blank (Node.reads blank) g.nodes)

/-! ## Graphs that can be read back -/

theorem Binary.Number.isFinite_iff {f : Binary.Format} (x : Binary.Number f) :
    x.isFinite = true ↔ x.isNaN = false ∧ x.isInfinite = false := by
  simp only [isFinite, isNaN, isInfinite, decide_eq_true_eq, decide_eq_false_iff_not]
  omega

/-- Whether a float is a value or an element of it. -/
def Attribute.Value.HoldsFloat (x : Binary64) : Value → Prop
  | .scalar s => s = .float x
  | .list elements => .float x ∈ elements
  | .payload _ => False

/-- Whether a float stands in an attribute of a graph. -/
def Graph.HoldsFloat (g : Graph) (x : Binary64) : Prop :=
  ∃ node ∈ g.nodes, ∃ name value, node.attributes.get? name = some value ∧ value.HoldsFloat x

theorem Attribute.Scalar.isFinite_iff (s : Scalar) :
    s.isFinite = true ↔ ∀ x, s = .float x → x.isFinite = true := by
  cases s <;> simp [isFinite]

theorem Attribute.Value.isFinite_iff (v : Value) :
    v.isFinite = true ↔ ∀ x, v.HoldsFloat x → x.isFinite = true := by
  cases v with
  | scalar s => exact s.isFinite_iff
  | list elements =>
    simp only [isFinite, List.all_eq_true, Scalar.isFinite_iff, HoldsFloat]
    exact ⟨fun all x member => all _ member x rfl, fun all s member x h => all x (h ▸ member)⟩
  | payload p => simp [isFinite, HoldsFloat]

theorem Graph.isFinite_iff (g : Graph) :
    g.isFinite = true ↔ ∀ x, g.HoldsFloat x → x.isFinite = true := by
  simp only [isFinite, Node.isFinite, Attribute.Store.isFinite, List.all_eq_true,
    Attribute.Value.isFinite_iff, HoldsFloat]
  constructor
  · rintro all x ⟨node, member, name, value, found, holds⟩
    exact all node member (name, value) (NameMap.mem_entries_iff.mpr found) x holds
  · intro all node member entry inside x holds
    exact all x ⟨node, member, entry.1, entry.2, NameMap.mem_entries_iff.mp inside, holds⟩

namespace Graph

theorem toOption_readJson_writeJson (g : Graph) :
    (readJson g.writeJson).toOption = Option.guard Graph.isFinite g :=
  run_ofList (g.reads blankLayout_indented 0)

theorem readJson_writeJson_eq_ok_iff {g g' : Graph} :
    readJson g.writeJson = .ok g' ↔ g.isFinite = true ∧ g' = g := by
  have read := toOption_readJson_writeJson g
  cases answer : readJson g.writeJson with
  | error fault =>
    simp only [answer, Except.toOption, eq_comm, Option.guard_eq_none_iff] at read
    simp [read]
  | ok found =>
    simp only [answer, Except.toOption, eq_comm, Option.guard_eq_some_iff] at read
    obtain ⟨rfl, finite⟩ := read
    simp [finite, eq_comm]

/-- What was saved to a file is loaded from it. -/
theorem load_save {g : Graph} (finite : g.isFinite = true) {directoryExists : Bool}
    {content : List UInt8} (saved : g.save directoryExists = .ok content) :
    load (some content) = .ok g := by
  have read := readJson_writeJson_eq_ok_iff.mpr ⟨finite, rfl⟩
  cases directoryExists with
  | false => cases saved
  | true =>
    cases saved
    simp only [load, Text.ofUtf8?_utf8, read, Except.mapError]

/-- Every graph has a text. It is read back as the graph that was written if all floats in that are
finite, and not at all otherwise. -/
theorem readJson_writeJson (g : Graph) :
    ((∃ g', readJson g.writeJson = .ok g') ↔
      ∀ x, g.HoldsFloat x → x.isNaN = false ∧ x.isInfinite = false) ∧
    ∀ g', readJson g.writeJson = .ok g' → g' = g := by
  simp only [readJson_writeJson_eq_ok_iff, exists_and_left, exists_eq, and_true, g.isFinite_iff,
    Binary.Number.isFinite_iff, true_and]
  exact fun g' h => h.2

end Graph

end OperatorGraph
