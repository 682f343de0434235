import OperatorGraph.Proofs.Onnx.RoundTrip
import OperatorGraph.Proofs.Wire.Weight

/-!
What has been read can be written again: it nests no deeper than it was allowed to, and it takes at
most twice the bytes.
-/

namespace OperatorGraph.Onnx

open Wire

theorem weight_of_readDeclared {numbers : List Nat} {levels : Nat} {input : List UInt8} {m : Message}
    (h : readDeclared numbers levels input = some m) : m.weight ≤ input.length := by
  obtain ⟨whole, read, declared⟩ := Option.bind_eq_some_iff.mp h
  exact (Message.weight_sublist (Message.declared_spec declared).1).trans (Message.weight_read? read)

variable {α : Type} {c : Codec α} {numbers : List Nat} {read : Message → Option α}
variable {m : Message} {number levels : Nat}

/-- Whether what is read takes at most twice the bytes when it is written. -/
def Doubles (c : Codec α) (read : Message → Option α) : Prop :=
  ∀ m a, read m = some a → (c.toMessage a).weight ≤ 2 * m.weight

theorem Doubles.encode_le (h : Doubles c read) {a : α} (done : read m = some a) :
    (c.encode a).length ≤ 2 * m.weight :=
  (Message.length_write_le _).trans (h m a done)

theorem eachNested_le (h : 0 < levels → Doubles c read) {as : List α}
    (done : (m.eachBytes? number).bind (eachNested numbers read levels) = some as) :
    (Field.eachBytes number (as.map c.encode)).weight ≤ 2 * m.fieldWeight number := by
  obtain ⟨inputs, contents, nested⟩ := Option.bind_eq_some_iff.mp done
  rw [Message.fieldWeight_of_eachBytes? contents]
  refine Message.weight_eachBytes_le (List.forall₂_map_right_iff.mpr ?_)
  apply (eachNested_spec nested).imp
  rintro input a ⟨pos, m', declared, read⟩
  exact ((h pos).encode_le read).trans (Nat.mul_le_mul_left 2 (weight_of_readDeclared declared))

theorem oneNested_le (h : 0 < levels → Doubles c read) {a? : Option α}
    (done : (m.eachBytes? number).bind (oneNested numbers read levels) = some a?) :
    (Field.eachBytes number (a?.toList.map c.encode)).weight ≤ 2 * m.fieldWeight number := by
  obtain ⟨inputs, contents, nested⟩ := Option.bind_eq_some_iff.mp done
  rw [Message.fieldWeight_of_eachBytes? contents]
  rcases oneNested_spec nested with ⟨_, rfl⟩ | ⟨ms, a, nonempty, pos, declared, read, rfl⟩
  · exact Nat.zero_le _
  · refine Message.weight_joined_le nonempty ?_
    have joined : Message.weight ms.flatten ≤ (inputs.map List.length).sum := by
      clear contents nested nonempty read
      induction declared with
      | nil => exact le_rfl
      | cons first _ ih =>
        have := weight_of_readDeclared first
        rw [List.flatten_cons, Message.weight_append, List.map_cons, List.sum_cons]
        omega
    exact ((h pos).encode_le read).trans (Nat.mul_le_mul_left 2 joined)

theorem OpsetId.doubles : Doubles codec ofMessage? := by
  intro m o h
  obtain ⟨domain, version⟩ := ofMessage?_eq_some_iff.mp h
  have fields : (numbers.map m.fieldWeight).sum ≤ m.weight := m.sum_fieldWeight_le (by decide)
  have := Message.weight_text_le domain
  have := Message.weight_int64_le version
  simp only [numbers, List.map_cons, List.map_nil, List.sum_cons, List.sum_nil] at fields
  simp only [codec, toMessage, Message.weight_append]
  omega

theorem ValueInfo.doubles : Doubles codec ofMessage? := by
  intro m v h
  obtain ⟨name, docString⟩ := ofMessage?_eq_some_iff.mp h
  have fields : (numbers.map m.fieldWeight).sum ≤ m.weight := m.sum_fieldWeight_le (by decide)
  have := Message.weight_text_le name
  have := Message.weight_text_le docString
  simp only [numbers, List.map_cons, List.map_nil, List.sum_cons, List.sum_nil] at fields
  simp only [codec, toMessage, Message.weight_append]
  omega

theorem Tensor.doubles : Doubles codec ofMessage? := by
  intro m t h
  obtain ⟨dims, dataType, name, rawData⟩ := ofMessage?_eq_some_iff.mp h
  have fields : (numbers.map m.fieldWeight).sum ≤ m.weight := m.sum_fieldWeight_le (by decide)
  have := Message.weight_int64s_le dims
  have := Message.weight_int32_le dataType
  have := Message.weight_text_le name
  have := Message.weight_bytes_le rawData
  simp only [numbers, List.map_cons, List.map_nil, List.sum_cons, List.sum_nil] at fields
  simp only [codec, toMessage, Message.weight_append]
  omega

theorem Attribute.doubles
    (graphs : 0 < levels → Doubles Graph.codec (Graph.ofMessage? (levels - 1))) :
    Doubles codec (ofMessage? levels) := by
  intro m a h
  have held := ofMessage?_eq_some_iff.mp h
  have fields : (numbers.map m.fieldWeight).sum ≤ m.weight := m.sum_fieldWeight_le (by decide)
  obtain ⟨bits, f, same⟩ := Option.map_eq_some_iff.mp held.f
  obtain ⟨words, floats, eq⟩ := Option.map_eq_some_iff.mp held.floats
  have := Message.weight_text_le held.name
  have positive : bits = 0 → a.f.isZero = true := by
    intro zero
    rw [← same, zero]
    rfl
  have := Message.weight_float_le f (bits32 a.f) positive
  have := Message.weight_int64_le held.i
  have := Message.weight_bytes_le held.s
  have := oneNested_le (fun _ => Tensor.doubles) held.t
  have := oneNested_le graphs held.g
  have sameLength : (a.floats.map bits32).length = words.length := by simp [← eq]
  have := Message.weight_floats_le floats sameLength
  have := Message.weight_int64s_le held.ints
  have := (Message.fieldWeight_of_eachBytes? held.strings).ge
  have := Message.weight_text_le held.docString
  have := Message.weight_int32_le held.type
  simp only [numbers, List.map_cons, List.map_nil, List.sum_cons, List.sum_nil] at fields
  simp only [codec, toMessage_eq, Message.weight_append]
  omega

theorem Node.doubles
    (attributes : 0 < levels → Doubles Attribute.codec (Attribute.ofMessage? (levels - 1))) :
    Doubles codec (ofMessage? levels) := by
  intro m n h
  have held := ofMessage?_eq_some_iff.mp h
  have fields : (numbers.map m.fieldWeight).sum ≤ m.weight := m.sum_fieldWeight_le (by decide)
  have := Message.weight_texts_le held.inputs
  have := Message.weight_texts_le held.outputs
  have := Message.weight_text_le held.name
  have := Message.weight_text_le held.opType
  have := eachNested_le attributes held.attributes
  have := Message.weight_text_le held.docString
  have := Message.weight_text_le held.domain
  simp only [numbers, List.map_cons, List.map_nil, List.sum_cons, List.sum_nil] at fields
  simp only [codec, toMessage_eq, Message.weight_append]
  omega

theorem Graph.doubles (nodes : 0 < levels → Doubles Node.codec (Node.ofMessage? (levels - 1))) :
    Doubles codec (ofMessage? levels) := by
  intro m g h
  have held := ofMessage?_eq_some_iff.mp h
  have fields : (numbers.map m.fieldWeight).sum ≤ m.weight := m.sum_fieldWeight_le (by decide)
  have := eachNested_le nodes held.nodes
  have := Message.weight_text_le held.name
  have := eachNested_le (fun _ => Tensor.doubles) held.initializers
  have := Message.weight_text_le held.docString
  have := eachNested_le (fun _ => ValueInfo.doubles) held.inputs
  have := eachNested_le (fun _ => ValueInfo.doubles) held.outputs
  simp only [numbers, List.map_cons, List.map_nil, List.sum_cons, List.sum_nil] at fields
  simp only [codec, toMessage_eq, Message.weight_append]
  omega

theorem depth_of_eachNested (depth : α → Nat)
    (h : 0 < levels → ∀ m a, read m = some a → depth a ≤ levels - 1) {as : List α}
    (done : (m.eachBytes? number).bind (eachNested numbers read levels) = some as) {a : α}
    (member : a ∈ as) : depth a + 1 ≤ levels := by
  obtain ⟨inputs, _, nested⟩ := Option.bind_eq_some_iff.mp done
  obtain ⟨_, _, pos, m', _, read⟩ := exists_of_mem_right (eachNested_spec nested) member
  have := h pos m' a read
  omega

theorem depth_of_oneNested (depth : α → Nat)
    (h : 0 < levels → ∀ m a, read m = some a → depth a ≤ levels - 1) {a? : Option α}
    (done : (m.eachBytes? number).bind (oneNested numbers read levels) = some a?) {a : α}
    (member : a ∈ a?) : depth a + 1 ≤ levels := by
  obtain ⟨inputs, _, nested⟩ := Option.bind_eq_some_iff.mp done
  rcases oneNested_spec nested with ⟨_, rfl⟩ | ⟨ms, a', _, pos, _, read, rfl⟩
  · cases member
  · cases member
    have := h pos _ _ read
    omega

/-- Messages that hold no others take a level all the same. -/
theorem pos_of_eachNested {as : List α}
    (done : (m.eachBytes? number).bind (eachNested numbers read levels) = some as)
    (nonempty : as ≠ []) : 0 < levels := by
  obtain ⟨a, member⟩ := List.exists_mem_of_ne_nil _ nonempty
  exact depth_of_eachNested (fun _ => 0) (fun _ _ _ _ => Nat.zero_le _) done member

theorem pos_of_oneNested {a? : Option α}
    (done : (m.eachBytes? number).bind (oneNested numbers read levels) = some a?)
    (nonempty : a? ≠ none) : 0 < levels := by
  obtain ⟨a, rfl⟩ := Option.ne_none_iff_exists'.mp nonempty
  exact depth_of_oneNested (fun _ => 0) (fun _ _ _ _ => Nat.zero_le _) done rfl

theorem Attribute.depth_le
    (graphs : 0 < levels → ∀ m g, Graph.ofMessage? (levels - 1) m = some g → g.depth ≤ levels - 1)
    {a : Attribute} (h : ofMessage? levels m = some a) : a.depth ≤ levels := by
  have held := ofMessage?_eq_some_iff.mp h
  refine depth_le_iff.mpr ⟨pos_of_oneNested held.t, ?_⟩
  intro g
  exact depth_of_oneNested Graph.depth graphs held.g

theorem Node.depth_le
    (attributes : 0 < levels →
      ∀ m a, Attribute.ofMessage? (levels - 1) m = some a → a.depth ≤ levels - 1)
    {n : Node} (h : ofMessage? levels m = some n) : n.depth ≤ levels :=
  depth_le_iff.mpr fun _ =>
    depth_of_eachNested Attribute.depth attributes (ofMessage?_eq_some_iff.mp h).attributes

theorem Graph.depth_le
    (nodes : 0 < levels → ∀ m n, Node.ofMessage? (levels - 1) m = some n → n.depth ≤ levels - 1)
    {g : Graph} (h : ofMessage? levels m = some g) : g.depth ≤ levels := by
  have held := ofMessage?_eq_some_iff.mp h
  exact depth_le_iff.mpr ⟨fun n => depth_of_eachNested Node.depth nodes held.nodes,
    pos_of_eachNested held.initializers, pos_of_eachNested held.inputs,
    pos_of_eachNested held.outputs⟩

/-- What is known of messages that have been read with so many levels to nest. -/
structure Readable (levels : Nat) : Prop where
  attributes : Doubles Attribute.codec (Attribute.ofMessage? levels)
  nodes : Doubles Node.codec (Node.ofMessage? levels)
  graphs : Doubles Graph.codec (Graph.ofMessage? levels)
  attributeDepth (m : Message) (a : Attribute) :
    Attribute.ofMessage? levels m = some a → a.depth ≤ levels
  nodeDepth (m : Message) (n : Node) : Node.ofMessage? levels m = some n → n.depth ≤ levels
  graphDepth (m : Message) (g : Graph) : Graph.ofMessage? levels m = some g → g.depth ≤ levels

theorem readable (levels : Nat) : Readable levels := by
  induction levels with
  | zero =>
    have never {p : Prop} (h : 0 < 0) : p := absurd h (Nat.lt_irrefl 0)
    exact ⟨Attribute.doubles never, Node.doubles never, Graph.doubles never,
      fun _ _ => Attribute.depth_le never, fun _ _ => Node.depth_le never,
      fun _ _ => Graph.depth_le never⟩
  | succ levels ih =>
    constructor
    · exact Attribute.doubles fun _ => ih.graphs
    · exact Node.doubles fun _ => ih.attributes
    · exact Graph.doubles fun _ => ih.nodes
    · intro m a h
      refine Attribute.depth_le ?_ h
      intro _
      exact ih.graphDepth
    · intro m n h
      refine Node.depth_le ?_ h
      intro _
      exact ih.attributeDepth
    · intro m g h
      refine Graph.depth_le ?_ h
      intro _
      exact ih.nodeDepth

theorem Model.doubles : Doubles codec (ofMessage? levels) := by
  intro m x h
  have held := ofMessage?_eq_some_iff.mp h
  have fields : (numbers.map m.fieldWeight).sum ≤ m.weight := m.sum_fieldWeight_le (by decide)
  have := Message.weight_int64_le held.irVersion
  have := Message.weight_text_le held.producerName
  have := Message.weight_text_le held.producerVersion
  have := Message.weight_text_le held.domain
  have := Message.weight_int64_le held.modelVersion
  have := Message.weight_text_le held.docString
  have := oneNested_le (fun _ => (readable (levels - 1)).graphs) held.graph
  have := eachNested_le (fun _ => OpsetId.doubles) held.opsetImports
  simp only [numbers, List.map_cons, List.map_nil, List.sum_cons, List.sum_nil] at fields
  simp only [codec, toMessage, Message.weight_append]
  change _ + Message.weight (Field.eachBytes 7 (x.graph.toList.map Graph.codec.encode)) +
    Message.weight (Field.eachBytes 8 (x.opsetImports.map OpsetId.codec.encode)) ≤ _
  omega

theorem Model.depth_le {x : Model} (h : ofMessage? levels m = some x) : x.depth ≤ levels := by
  have held := ofMessage?_eq_some_iff.mp h
  refine depth_le_iff.mpr ⟨fun g => depth_of_oneNested Graph.depth (fun _ => ?_) held.graph,
    pos_of_eachNested held.opsetImports⟩
  exact (readable (levels - 1)).graphDepth

theorem decode?_spec {c : Codec α} {input : List UInt8} {a : α} (h : c.decode? input = some a) :
    ∃ m : Message, m.weight ≤ input.length ∧ c.ofMessage? nestingLimit m = some a := by
  obtain ⟨m, declared, read⟩ := Option.bind_eq_some_iff.mp h
  exact ⟨m, weight_of_readDeclared declared, read⟩

theorem Graph.depth_of_decode? {input : List UInt8} {g : Graph} (h : codec.decode? input = some g) :
    g.depth ≤ nestingLimit := by
  obtain ⟨m, _, read⟩ := decode?_spec h
  exact (readable nestingLimit).graphDepth m g read

theorem Graph.depth_dropZeroSign_le {g : Graph} (size : (codec.encode g).length < 2 ^ 64) :
    g.dropZeroSign.depth ≤ g.depth :=
  (readable g.depth).graphDepth _ _ ((readBack g.depth).graphs g le_rfl size)

end OperatorGraph.Onnx
