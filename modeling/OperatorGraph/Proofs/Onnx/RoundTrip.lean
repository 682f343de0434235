import OperatorGraph.Proofs.Binary.Conversion
import OperatorGraph.Proofs.Onnx.Nesting

/-!
Messages are read back as they were written if they do not nest too deep. One thing is lost: a field
that holds a float is not written if the float is zero, so a negative zero comes back as a positive
one.
-/

namespace OperatorGraph.Onnx

open Wire

mutual

/-- How many levels of messages nest inside an attribute. -/
def Attribute.depth : Attribute → Nat
  | ⟨_, _, _, _, t, g, _, _, _, _, _⟩ => max t.toList.length (optionalGraphDepth g)
termination_by structural a => a

def optionalGraphDepth : Option Graph → Nat
  | none => 0
  | some g => Graph.depth g + 1

def attributesDepth : List Attribute → Nat
  | [] => 0
  | a :: rest => max (Attribute.depth a + 1) (attributesDepth rest)

def Node.depth : Node → Nat
  | ⟨_, _, _, _, attributes, _, _⟩ => attributesDepth attributes

def nodesDepth : List Node → Nat
  | [] => 0
  | n :: rest => max (Node.depth n + 1) (nodesDepth rest)

def Graph.depth : Graph → Nat
  | ⟨nodes, _, initializers, _, inputs, outputs⟩ =>
    max (nodesDepth nodes) (min 1 (initializers.length + inputs.length + outputs.length))

end

def Model.depth (x : Model) : Nat :=
  max (optionalGraphDepth x.graph) (min 1 x.opsetImports.length)

mutual

/-- An attribute without the sign of a zero, here and in the graph that it holds. -/
def Attribute.dropZeroSign : Attribute → Attribute
  | ⟨name, f, i, s, t, g, floats, ints, strings, docString, type⟩ =>
    ⟨name, if f.isZero then .zero else f, i, s, t, optionalDropZeroSign g, floats, ints, strings,
      docString, type⟩
termination_by structural a => a

def optionalDropZeroSign : Option Graph → Option Graph
  | none => none
  | some g => some (Graph.dropZeroSign g)

def attributesDropZeroSign : List Attribute → List Attribute
  | [] => []
  | a :: rest => Attribute.dropZeroSign a :: attributesDropZeroSign rest

def Node.dropZeroSign : Node → Node
  | ⟨inputs, outputs, name, opType, attributes, docString, domain⟩ =>
    ⟨inputs, outputs, name, opType, attributesDropZeroSign attributes, docString, domain⟩

def nodesDropZeroSign : List Node → List Node
  | [] => []
  | n :: rest => Node.dropZeroSign n :: nodesDropZeroSign rest

def Graph.dropZeroSign : Graph → Graph
  | ⟨nodes, name, initializers, docString, inputs, outputs⟩ =>
    ⟨nodesDropZeroSign nodes, name, initializers, docString, inputs, outputs⟩

end

def Model.dropZeroSign (x : Model) : Model := { x with graph := x.graph.map Graph.dropZeroSign }

theorem float_dropZeroSign (number : Nat) (f : Binary32) :
    Field.float number (bits32 (if f.isZero then .zero else f))
        (if f.isZero then .zero else f : Binary32).isZero =
      Field.float number (bits32 f) f.isZero := by
  cases zero : f.isZero with
  | true => rfl
  | false => simp [zero]

mutual

/-- What is lost has not been written. -/
theorem Attribute.toMessage_dropZeroSign : ∀ a : Attribute, a.dropZeroSign.toMessage = a.toMessage
  | ⟨_, f, _, _, _, g, _, _, _, _, _⟩ => by
    rw [Attribute.dropZeroSign, Attribute.toMessage, Attribute.toMessage, float_dropZeroSign,
      optionalGraphBytes_dropZeroSign g]

theorem optionalGraphBytes_dropZeroSign :
    ∀ g : Option Graph, optionalGraphBytes (optionalDropZeroSign g) = optionalGraphBytes g
  | none => rfl
  | some g => by
    rw [optionalDropZeroSign, optionalGraphBytes, optionalGraphBytes,
      Graph.toMessage_dropZeroSign g]

theorem attributesBytes_dropZeroSign :
    ∀ attributes : List Attribute,
      attributesBytes (attributesDropZeroSign attributes) = attributesBytes attributes
  | [] => rfl
  | a :: rest => by
    rw [attributesDropZeroSign, attributesBytes, attributesBytes,
      Attribute.toMessage_dropZeroSign a, attributesBytes_dropZeroSign rest]

theorem Node.toMessage_dropZeroSign : ∀ n : Node, n.dropZeroSign.toMessage = n.toMessage
  | ⟨_, _, _, _, attributes, _, _⟩ => by
    rw [Node.dropZeroSign, Node.toMessage, Node.toMessage,
      attributesBytes_dropZeroSign attributes]

theorem nodesBytes_dropZeroSign :
    ∀ nodes : List Node, nodesBytes (nodesDropZeroSign nodes) = nodesBytes nodes
  | [] => rfl
  | n :: rest => by
    rw [nodesDropZeroSign, nodesBytes, nodesBytes, Node.toMessage_dropZeroSign n,
      nodesBytes_dropZeroSign rest]

theorem Graph.toMessage_dropZeroSign : ∀ g : Graph, g.dropZeroSign.toMessage = g.toMessage
  | ⟨nodes, _, _, _, _, _⟩ => by
    rw [Graph.dropZeroSign, Graph.toMessage, Graph.toMessage, nodesBytes_dropZeroSign nodes]

end

theorem Graph.encode_dropZeroSign (g : Graph) : codec.encode g.dropZeroSign = codec.encode g :=
  congrArg Message.write g.toMessage_dropZeroSign

theorem Model.encode_dropZeroSign (x : Model) : codec.encode x.dropZeroSign = codec.encode x := by
  have graph : (x.graph.map Graph.dropZeroSign).toList.map (fun g => g.toMessage.write) =
      x.graph.toList.map fun g => g.toMessage.write := by
    cases x.graph with
    | none => rfl
    | some g => exact congrArg (fun m => [Message.write m]) g.toMessage_dropZeroSign
  exact congrArg Message.write (by simp only [codec, toMessage, dropZeroSign, graph])

theorem optionalDropZeroSign_eq (g : Option Graph) :
    optionalDropZeroSign g = g.map Graph.dropZeroSign := by
  cases g <;> rfl

theorem attributesDropZeroSign_eq (attributes : List Attribute) :
    attributesDropZeroSign attributes = attributes.map Attribute.dropZeroSign := by
  induction attributes with
  | nil => rfl
  | cons a rest ih => rw [attributesDropZeroSign, ih, List.map_cons]

theorem nodesDropZeroSign_eq (nodes : List Node) :
    nodesDropZeroSign nodes = nodes.map Node.dropZeroSign := by
  induction nodes with
  | nil => rfl
  | cons n rest ih => rw [nodesDropZeroSign, ih, List.map_cons]

theorem attributesDepth_le_iff {attributes : List Attribute} {levels : Nat} :
    attributesDepth attributes ≤ levels ↔ ∀ a ∈ attributes, a.depth + 1 ≤ levels := by
  induction attributes with
  | nil => simp [attributesDepth]
  | cons a rest ih => rw [attributesDepth, Nat.max_le, ih, List.forall_mem_cons]

theorem nodesDepth_le_iff {nodes : List Node} {levels : Nat} :
    nodesDepth nodes ≤ levels ↔ ∀ n ∈ nodes, n.depth + 1 ≤ levels := by
  induction nodes with
  | nil => simp [nodesDepth]
  | cons n rest ih => rw [nodesDepth, Nat.max_le, ih, List.forall_mem_cons]

theorem optionalGraphDepth_le_iff {g? : Option Graph} {levels : Nat} :
    optionalGraphDepth g? ≤ levels ↔ ∀ g ∈ g?, g.depth + 1 ≤ levels := by
  cases g? <;> simp [optionalGraphDepth]

theorem binary32_bits32 (x : Binary32) : binary32 (bits32 x) = x := by
  have fits : x.bits < 2 ^ 32 := x.bits_lt
  have same : (bits32 x).toNat = x.bits := Nat.mod_eq_of_lt fits
  rw [binary32, same, Binary.Number.ofBits_bits]

theorem ValueInfo.ofMessage?_toMessage (v : ValueInfo) : ofMessage? v.toMessage = some v := by
  rw [ofMessage?_eq_some_iff]
  constructor
  · exact Message.text?_of_contents (by simp [toMessage])
  · exact Message.text?_of_contents (by simp [toMessage])

theorem OpsetId.ofMessage?_toMessage (o : OpsetId) : ofMessage? o.toMessage = some o := by
  rw [ofMessage?_eq_some_iff]
  constructor
  · exact Message.text?_of_contents (by simp [toMessage])
  · exact Message.int64?_of_contents (by simp [toMessage])

theorem Tensor.ofMessage?_toMessage (t : Tensor) : ofMessage? t.toMessage = some t := by
  rw [ofMessage?_eq_some_iff]
  constructor
  · exact Message.int64s?_of_contents (by simp [toMessage])
  · exact Message.int32?_of_contents (by simp [toMessage])
  · exact Message.text?_of_contents (by simp [toMessage])
  · exact Message.bytes?_of_contents (by simp [toMessage])

theorem Attribute.dropZeroSign_eq (a : Attribute) :
    a.dropZeroSign =
      { a with f := if a.f.isZero then .zero else a.f, g := a.g.map Graph.dropZeroSign } := by
  cases a
  rw [dropZeroSign, optionalDropZeroSign_eq]

theorem Node.dropZeroSign_eq (n : Node) :
    n.dropZeroSign = { n with attributes := n.attributes.map Attribute.dropZeroSign } := by
  cases n
  rw [dropZeroSign, attributesDropZeroSign_eq]

theorem Graph.dropZeroSign_eq (g : Graph) :
    g.dropZeroSign = { g with nodes := g.nodes.map Node.dropZeroSign } := by
  cases g
  rw [dropZeroSign, nodesDropZeroSign_eq]

theorem Attribute.depth_le_iff {a : Attribute} {levels : Nat} :
    a.depth ≤ levels ↔ (a.t ≠ none → 0 < levels) ∧ ∀ g ∈ a.g, g.depth + 1 ≤ levels := by
  obtain ⟨_, _, _, _, t, g, _, _, _, _, _⟩ := a
  rw [depth, Nat.max_le, optionalGraphDepth_le_iff]
  cases t <;> simp [Nat.succ_le_iff]

theorem Node.depth_le_iff {n : Node} {levels : Nat} :
    n.depth ≤ levels ↔ ∀ a ∈ n.attributes, a.depth + 1 ≤ levels := by
  cases n
  rw [depth, attributesDepth_le_iff]

theorem Graph.depth_le_iff {g : Graph} {levels : Nat} :
    g.depth ≤ levels ↔
      (∀ n ∈ g.nodes, n.depth + 1 ≤ levels) ∧ (g.initializers ≠ [] → 0 < levels) ∧
        (g.inputs ≠ [] → 0 < levels) ∧ (g.outputs ≠ [] → 0 < levels) := by
  obtain ⟨nodes, _, initializers, _, inputs, outputs⟩ := g
  rw [depth, Nat.max_le, nodesDepth_le_iff]
  apply and_congr_right
  intro _
  simp only [ne_eq, ← List.length_eq_zero_iff]
  omega

theorem Attribute.ofMessage?_toMessage {levels : Nat} {a : Attribute}
    (graphs : ∀ g : Graph, g.depth + 1 ≤ levels → (Graph.codec.encode g).length < 2 ^ 64 →
      Graph.ofMessage? (levels - 1) g.toMessage = some g.dropZeroSign)
    (deep : a.depth ≤ levels) (size : a.toMessage.write.length < 2 ^ 64) :
    ofMessage? levels a.toMessage = some a.dropZeroSign := by
  obtain ⟨tensorRoom, graphRoom⟩ := depth_le_iff.mp deep
  rw [ofMessage?_eq_some_iff, dropZeroSign_eq]
  constructor
  · exact Message.text?_of_contents (by simp [toMessage_eq])
  · have single : a.toMessage.fixed32? 2 = some (if a.f.isZero then 0 else bits32 a.f) :=
      Message.fixed32?_of_contents (by simp [toMessage_eq])
    rw [single, Option.map_some, apply_ite binary32, binary32_bits32]
    rfl
  · exact Message.int64?_of_contents (by simp [toMessage_eq])
  · exact Message.bytes?_of_contents (by simp [toMessage_eq])
  · rw [← Option.map_id_apply (x := a.t)]
    exact Tensor.codec_wellFormed.oneNested_of_contents (by simp [toMessage_eq]) size tensorRoom
      fun t _ _ => Tensor.ofMessage?_toMessage t
  · refine Graph.codec_wellFormed.oneNested_of_contents (by simp [toMessage_eq]) size
      (fun some => ?_) fun g holds => graphs g (graphRoom g holds)
    obtain ⟨g, holds⟩ := Option.ne_none_iff_exists'.mp some
    exact Nat.lt_of_lt_of_le (Nat.succ_pos _) (graphRoom g holds)
  · have packed : a.toMessage.fixed32s? 7 = some (a.floats.map bits32) :=
      Message.fixed32s?_of_contents (by simp [toMessage_eq])
    rw [packed, Option.map_some, List.map_map, Function.comp_def]
    simp only [binary32_bits32, List.map_id']
  · exact Message.int64s?_of_contents (by simp [toMessage_eq])
  · exact Message.eachBytes?_of_contents (by simp [toMessage_eq])
  · exact Message.text?_of_contents (by simp [toMessage_eq])
  · exact Message.int32?_of_contents (by simp [toMessage_eq])

theorem Node.ofMessage?_toMessage {levels : Nat} {n : Node}
    (attributes : ∀ a : Attribute, a.depth + 1 ≤ levels →
      (Attribute.codec.encode a).length < 2 ^ 64 →
      Attribute.ofMessage? (levels - 1) a.toMessage = some a.dropZeroSign)
    (deep : n.depth ≤ levels) (size : n.toMessage.write.length < 2 ^ 64) :
    ofMessage? levels n.toMessage = some n.dropZeroSign := by
  have room := depth_le_iff.mp deep
  rw [ofMessage?_eq_some_iff, dropZeroSign_eq]
  constructor
  · exact Message.texts?_of_contents (by simp [toMessage_eq])
  · exact Message.texts?_of_contents (by simp [toMessage_eq])
  · exact Message.text?_of_contents (by simp [toMessage_eq])
  · exact Message.text?_of_contents (by simp [toMessage_eq])
  · refine Attribute.codec_wellFormed.eachNested_of_contents (by simp [toMessage_eq]) size
      (fun nonempty => ?_) fun a member => attributes a (room a member)
    obtain ⟨a, member⟩ := List.exists_mem_of_ne_nil _ nonempty
    exact Nat.lt_of_lt_of_le (Nat.succ_pos _) (room a member)
  · exact Message.text?_of_contents (by simp [toMessage_eq])
  · exact Message.text?_of_contents (by simp [toMessage_eq])

theorem Graph.ofMessage?_toMessage {levels : Nat} {g : Graph}
    (nodes : ∀ n : Node, n.depth + 1 ≤ levels → (Node.codec.encode n).length < 2 ^ 64 →
      Node.ofMessage? (levels - 1) n.toMessage = some n.dropZeroSign)
    (deep : g.depth ≤ levels) (size : g.toMessage.write.length < 2 ^ 64) :
    ofMessage? levels g.toMessage = some g.dropZeroSign := by
  obtain ⟨room, initializerRoom, inputRoom, outputRoom⟩ := depth_le_iff.mp deep
  rw [ofMessage?_eq_some_iff, dropZeroSign_eq]
  constructor
  · refine Node.codec_wellFormed.eachNested_of_contents (by simp [toMessage_eq]) size
      (fun nonempty => ?_) fun n member => nodes n (room n member)
    obtain ⟨n, member⟩ := List.exists_mem_of_ne_nil _ nonempty
    exact Nat.lt_of_lt_of_le (Nat.succ_pos _) (room n member)
  · exact Message.text?_of_contents (by simp [toMessage_eq])
  · rw [← List.map_id' g.initializers]
    exact Tensor.codec_wellFormed.eachNested_of_contents (by simp [toMessage_eq]) size
      initializerRoom fun t _ _ => Tensor.ofMessage?_toMessage t
  · exact Message.text?_of_contents (by simp [toMessage_eq])
  · rw [← List.map_id' g.inputs]
    exact ValueInfo.codec_wellFormed.eachNested_of_contents (by simp [toMessage_eq]) size
      inputRoom fun v _ _ => ValueInfo.ofMessage?_toMessage v
  · rw [← List.map_id' g.outputs]
    exact ValueInfo.codec_wellFormed.eachNested_of_contents (by simp [toMessage_eq]) size
      outputRoom fun v _ _ => ValueInfo.ofMessage?_toMessage v

/-- Whether messages are read back with so many levels to nest. -/
structure ReadBack (levels : Nat) : Prop where
  attributes (a : Attribute) : a.depth ≤ levels → (Attribute.codec.encode a).length < 2 ^ 64 →
    Attribute.ofMessage? levels a.toMessage = some a.dropZeroSign
  nodes (n : Node) : n.depth ≤ levels → (Node.codec.encode n).length < 2 ^ 64 →
    Node.ofMessage? levels n.toMessage = some n.dropZeroSign
  graphs (g : Graph) : g.depth ≤ levels → (Graph.codec.encode g).length < 2 ^ 64 →
    Graph.ofMessage? levels g.toMessage = some g.dropZeroSign

theorem readBack (levels : Nat) : ReadBack levels := by
  induction levels with
  | zero =>
    constructor
    · intro a
      exact Attribute.ofMessage?_toMessage fun _ deep => absurd deep (Nat.not_succ_le_zero _)
    · intro n
      exact Node.ofMessage?_toMessage fun _ deep => absurd deep (Nat.not_succ_le_zero _)
    · intro g
      exact Graph.ofMessage?_toMessage fun _ deep => absurd deep (Nat.not_succ_le_zero _)
  | succ levels ih =>
    constructor
    · intro a
      exact Attribute.ofMessage?_toMessage fun g deep =>
        ih.graphs g (Nat.le_of_succ_le_succ deep)
    · intro n
      exact Node.ofMessage?_toMessage fun a deep =>
        ih.attributes a (Nat.le_of_succ_le_succ deep)
    · intro g
      exact Graph.ofMessage?_toMessage fun n deep =>
        ih.nodes n (Nat.le_of_succ_le_succ deep)

theorem Model.depth_le_iff {x : Model} {levels : Nat} :
    x.depth ≤ levels ↔
      (∀ g ∈ x.graph, g.depth + 1 ≤ levels) ∧ (x.opsetImports ≠ [] → 0 < levels) := by
  rw [depth, Nat.max_le, optionalGraphDepth_le_iff]
  apply and_congr_right
  intro _
  simp only [ne_eq, ← List.length_eq_zero_iff]
  omega

theorem Model.ofMessage?_toMessage {levels : Nat} {x : Model} (deep : x.depth ≤ levels)
    (size : x.toMessage.write.length < 2 ^ 64) :
    ofMessage? levels x.toMessage = some x.dropZeroSign := by
  obtain ⟨graphRoom, opsetRoom⟩ := depth_le_iff.mp deep
  rw [ofMessage?_eq_some_iff, dropZeroSign]
  constructor
  · exact Message.int64?_of_contents (by simp [toMessage])
  · exact Message.text?_of_contents (by simp [toMessage])
  · exact Message.text?_of_contents (by simp [toMessage])
  · exact Message.text?_of_contents (by simp [toMessage])
  · exact Message.int64?_of_contents (by simp [toMessage])
  · exact Message.text?_of_contents (by simp [toMessage])
  · refine Graph.codec_wellFormed.oneNested_of_contents (by simp [toMessage]; rfl) size
      (fun some => ?_) fun g holds => (readBack (levels - 1)).graphs g ?_
    · obtain ⟨g, holds⟩ := Option.ne_none_iff_exists'.mp some
      exact Nat.lt_of_lt_of_le (Nat.succ_pos _) (graphRoom g holds)
    · have := graphRoom g holds
      omega
  · rw [← List.map_id' x.opsetImports]
    exact OpsetId.codec_wellFormed.eachNested_of_contents (by simp [toMessage]; rfl) size opsetRoom
      fun o _ _ => OpsetId.ofMessage?_toMessage o

theorem Tensor.decode?_encode {t : Tensor} (size : (codec.encode t).length < 2 ^ 64) :
    codec.decode? (codec.encode t) = some t :=
  codec_wellFormed.decode?_encode size (ofMessage?_toMessage t)

theorem Graph.decode?_encode {g : Graph} (deep : g.depth ≤ nestingLimit)
    (size : (codec.encode g).length < 2 ^ 64) :
    codec.decode? (codec.encode g) = some g.dropZeroSign :=
  codec_wellFormed.decode?_encode size ((readBack nestingLimit).graphs g deep size)

theorem Model.decode?_encode {x : Model} (deep : x.depth ≤ nestingLimit)
    (size : (codec.encode x).length < 2 ^ 64) :
    codec.decode? (codec.encode x) = some x.dropZeroSign :=
  codec_wellFormed.decode?_encode size (ofMessage?_toMessage deep size)

end OperatorGraph.Onnx
