import OperatorGraph.Graph.OfModel
import OperatorGraph.Proofs.NameMap
import OperatorGraph.Proofs.Text.Utf8
import OperatorGraph.Proofs.Traversal

/-!
What is read from messages: of an attribute what its type names, and nodes whose attributes can all
be read and have different names.
-/

namespace OperatorGraph

namespace Attribute

@[simp] theorem ofNumber?_number (t : Onnx.AttributeType) :
    Onnx.AttributeType.ofNumber? t.number = some t := by
  cases t <;> decide

theorem number_of_ofNumber? {n : Int32} {t : Onnx.AttributeType}
    (h : Onnx.AttributeType.ofNumber? n = some t) : t.number = n := by
  simpa using List.find?_some h

theorem ofNumber?_eq_some_iff {n : Int32} {t : Onnx.AttributeType} :
    Onnx.AttributeType.ofNumber? n = some t ↔ n = t.number := by
  constructor
  · intro found
    exact (number_of_ofNumber? found).symm
  · rintro rfl
    exact ofNumber?_number t

theorem readTexts (name : String) (ss : List String) :
    (ss.map Text.utf8).mapM (Value.readText name) = .ok ss := by
  rw [mapM_eq_ok_iff, List.forall₂_map_left_iff, List.forall₂_same]
  intro s _
  rw [Value.readText, Text.ofUtf8?_utf8]

namespace Value

open Onnx.AttributeType (ofNumber?)

/-- The values that are read from an attribute, one for each type that is supported. -/
inductive ReadFrom (a : Onnx.Attribute) : Value → Prop
  | float (type : ofNumber? a.type = some .float) : ReadFrom a (.scalar (.float a.f.widen))
  | int (type : ofNumber? a.type = some .int) : ReadFrom a (.int a.i)
  | text (type : ofNumber? a.type = some .string) {s : String} (valid : a.s = Text.utf8 s) :
      ReadFrom a (.text s)
  | floats (type : ofNumber? a.type = some .floats) :
      ReadFrom a (.list (a.floats.map fun x => .float x.widen))
  | ints (type : ofNumber? a.type = some .ints) : ReadFrom a (.ints a.ints)
  | texts (type : ofNumber? a.type = some .strings) {ss : List String}
      (valid : a.strings = ss.map Text.utf8) : ReadFrom a (.list (ss.map .text))
  | tensor (type : ofNumber? a.type = some .tensor) {t : Onnx.Tensor} (held : a.t = some t) :
      ReadFrom a (.payload ⟨.tensor, Onnx.Tensor.codec.encode t⟩)
  | graph (type : ofNumber? a.type = some .graph) {g : Onnx.Graph} (held : a.g = some g) :
      ReadFrom a (.payload ⟨.graph, Onnx.Graph.codec.encode g⟩)

theorem utf8_of_readText {name s : String} {bytes : List UInt8}
    (h : readText name bytes = .ok s) : bytes = Text.utf8 s := by
  unfold readText at h
  split at h
  · rename_i valid
    cases h
    exact Text.ofUtf8?_eq_some_iff.mp valid
  · cases h

theorem utf8_of_readTexts {name : String} {strings : List (List UInt8)} {ss : List String}
    (h : strings.mapM (readText name) = .ok ss) : strings = ss.map Text.utf8 := by
  have related := (mapM_eq_ok_iff.mp h).imp fun _ _ text => utf8_of_readText text
  exact List.forall₂_eq_eq_eq ▸ List.forall₂_map_right_iff.mpr related

theorem readFrom_of_ofMessage {a : Onnx.Attribute} {v : Value} (h : ofMessage a = .ok v) :
    ReadFrom a v := by
  unfold ofMessage at h
  split at h
  · cases h
  · rename_i type
    cases h
    exact .float type
  · rename_i type
    cases h
    exact .int type
  · rename_i type
    obtain ⟨s, text, rfl⟩ := map_except_eq_ok_iff.mp h
    exact .text type (utf8_of_readText text)
  · rename_i type
    cases h
    exact .floats type
  · rename_i type
    cases h
    exact .ints type
  · rename_i type
    obtain ⟨ss, texts, rfl⟩ := map_except_eq_ok_iff.mp h
    exact .texts type (utf8_of_readTexts texts)
  · rename_i type
    cases held : a.t with
    | none =>
      rw [held] at h
      cases h
    | some t =>
      rw [held] at h
      cases h
      exact .tensor type held
  · rename_i type
    cases held : a.g with
    | none =>
      rw [held] at h
      cases h
    | some g =>
      rw [held] at h
      cases h
      exact .graph type held
  · cases h

end Value

end Attribute

open Attribute (Value)

namespace Node

variable {node node' : Node}

theorem addAttribute_eq_ok_iff {a : Onnx.Attribute} :
    node.addAttribute a = .ok node' ↔ node.attributes.contains a.name = false ∧
      ∃ v, Value.ofMessage a = .ok v ∧
        node' = { node with attributes := node.attributes.insert a.name v } := by
  unfold addAttribute
  split
  · rename_i present
    simp [present]
  · rename_i absent
    rw [map_except_eq_ok_iff, Bool.not_eq_true] at *
    simp [absent, eq_comm]

/-- Entries for messages: each has the name and the value of its message. -/
abbrev EntriesOf (as : List Onnx.Attribute) (entries : List (String × Value)) : Prop :=
  List.Forall₂ (fun a e => e.1 = a.name ∧ Value.ofMessage a = .ok e.2) as entries

theorem entriesOf_of_addAttributes {as : List Onnx.Attribute}
    (h : as.foldlM addAttribute node = .ok node') : ∃ entries, EntriesOf as entries ∧
      (entries.map Prod.fst).Nodup ∧ (∀ e ∈ entries, node.attributes.contains e.1 = false) ∧
      node' = { node with attributes := node.attributes.insertAll entries } := by
  induction as generalizing node with
  | nil =>
    cases h
    exact ⟨[], .nil, .nil, by simp, rfl⟩
  | cons a rest ih =>
    rw [List.foldlM_cons] at h
    cases first : node.addAttribute a with
    | error fault =>
      rw [first] at h
      cases h
    | ok next =>
      rw [first] at h
      obtain ⟨absent, v, read, rfl⟩ := addAttribute_eq_ok_iff.mp first
      obtain ⟨entries, related, distinct, fresh, rfl⟩ := ih h
      refine ⟨(a.name, v) :: entries, .cons ⟨rfl, read⟩ related, ?_, ?_, rfl⟩
      · refine List.nodup_cons.mpr ⟨fun member => ?_, distinct⟩
        obtain ⟨e, here, same⟩ := List.mem_map.mp member
        have := fresh e here
        rw [NameMap.contains_insert, same] at this
        simp at this
      · intro e member
        rcases List.mem_cons.mp member with rfl | later
        · exact absent
        · have := fresh e later
          rw [NameMap.contains_insert, Bool.or_eq_false_iff] at this
          exact this.2

theorem addAttributes_of_entriesOf {as : List Onnx.Attribute} {entries : List (String × Value)}
    (related : EntriesOf as entries) (distinct : (entries.map Prod.fst).Nodup)
    (fresh : ∀ e ∈ entries, node.attributes.contains e.1 = false) :
    as.foldlM addAttribute node =
      .ok { node with attributes := node.attributes.insertAll entries } := by
  induction related generalizing node with
  | nil => rfl
  | @cons a e as entries first _ ih =>
    obtain ⟨named, read⟩ := first
    obtain ⟨apart, tail⟩ := List.nodup_cons.mp distinct
    have absent : node.attributes.contains a.name = false := named ▸ fresh e List.mem_cons_self
    rw [List.foldlM_cons, addAttribute_eq_ok_iff.mpr ⟨absent, e.2, read, rfl⟩]
    have others : ∀ e' ∈ entries,
        NameMap.contains (node.attributes.insert a.name e.2) e'.1 = false := by
      intro e' member
      have other : e'.1 ≠ a.name := fun same =>
        apart (named.trans same.symm ▸ List.mem_map_of_mem member)
      rw [NameMap.contains_insert, fresh e' (List.mem_cons_of_mem e member)]
      simp [other]
    refine (ih tail others).trans ?_
    rw [← named]
    rfl

theorem ofMessage_eq_ok_iff {n : Onnx.Node} :
    ofMessage n = .ok node ↔ ∃ entries, EntriesOf n.attributes entries ∧
      (entries.map Prod.fst).Nodup ∧
      node =
        { opType := n.opType
          name := optionalName n.name
          domain := n.domain
          inputs := n.inputs
          outputs := n.outputs
          attributes := .ofList entries } := by
  constructor
  · intro h
    obtain ⟨entries, related, distinct, _, eq⟩ := entriesOf_of_addAttributes h
    exact ⟨entries, related, distinct, eq⟩
  · rintro ⟨entries, related, distinct, rfl⟩
    exact addAttributes_of_entriesOf related distinct fun _ _ => rfl

end Node

theorem Graph.ofModel_eq_ok_iff {x : Onnx.Model} {g : Graph} :
    ofModel x = .ok g ↔ ∃ graph : Onnx.Graph, x.graph = some graph ∧ ∃ nodes,
      List.Forall₂ (fun n node => Node.ofMessage n = .ok node) graph.nodes nodes ∧
      g =
        { name := optionalName graph.name
          opsetImports := x.opsetImports.map fun o => ⟨o.domain, o.version⟩
          inputs := graph.inputs.map (·.name)
          outputs := graph.outputs.map (·.name)
          nodes } := by
  unfold ofModel
  cases x.graph with
  | none => simp
  | some graph =>
    simp only [Option.some.injEq, exists_eq_left', map_except_eq_ok_iff]
    exact exists_congr fun nodes => and_congr mapM_eq_ok_iff eq_comm

end OperatorGraph
