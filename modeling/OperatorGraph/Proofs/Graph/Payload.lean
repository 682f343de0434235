import OperatorGraph.Proofs.Extender.Payload
import OperatorGraph.Proofs.Onnx.Declared
import OperatorGraph.Proofs.Onnx.MessageType
import OperatorGraph.Proofs.Reload

/-!
Payloads on their way through a graph, followed in the bytes of the models: what is loaded is read
as a message and written again, so what the message does not declare is gone.
-/

namespace OperatorGraph

open Attribute (Payload PayloadKind Value)

namespace Onnx

open Wire

/-- The pieces of a field that holds one message, put together. -/
def joined? (m : Message) (number : Nat) : Option (List UInt8) :=
  (m.eachBytes? number).bind fun pieces => if pieces = [] then none else some pieces.flatten

/-- The records of the nodes of the main graph, in the bytes of a model. -/
def mainNodes? (bytes : List UInt8) : Option (List Message) := do
  let model ← readDeclared Model.numbers nestingLimit bytes
  let graph ← readDeclared Graph.numbers (nestingLimit - 1) (← joined? model 7)
  (← graph.eachBytes? 1).mapM (readDeclared Node.numbers (nestingLimit - 2))

/-- The records of the attributes of a node. -/
def attributes? (node : Message) : Option (List Message) := do
  (← node.eachBytes? 5).mapM (readDeclared Attribute.numbers (nestingLimit - 3))

/-- The payload of an attribute whose type is that of one, as it stands there. -/
def rawPayload? (a : Message) : Option Payload := do
  match AttributeType.ofNumber? (← a.int32? 20) with
  | some .tensor => (joined? a 5).map fun bytes => ⟨.tensor, bytes⟩
  | some .graph => (joined? a 6).map fun bytes => ⟨.graph, bytes⟩
  | _ => none

/-- The payload of an attribute of a node of the main graph, as it stands in the bytes of a model. -/
def storedPayload? (bytes : List UInt8) (id : Nat) (name : String) : Option Payload := do
  let node ← (← mainNodes? bytes)[id]?
  rawPayload? (← (← attributes? node).find? fun a => a.text? 1 = some name)

theorem joined?_of_pieces {m : Message} {number : Nat} {pieces : List (List UInt8)}
    (h : m.eachBytes? number = some pieces) (nonempty : pieces ≠ []) :
    joined? m number = some pieces.flatten := by
  rw [joined?, h, Option.bind_some, if_neg nonempty]

/-- What is read from a field level by level is decoded from its pieces put together. -/
theorem decode?_of_joined? {α : Type} {c : Codec α} {read : Message → Option α} {levels : Nat}
    {m : Message} {number : Nat} {bytes : List UInt8} {a? : Option α}
    (joined : joined? m number = some bytes)
    (nested : (m.eachBytes? number).bind (oneNested c.numbers read levels) = some a?)
    (room : levels ≤ nestingLimit)
    (grows : ∀ m a, read m = some a → c.ofMessage? nestingLimit m = some a) :
    ∃ a, a? = some a ∧ c.decode? bytes = some a := by
  obtain ⟨pieces, holds, done⟩ := Option.bind_eq_some_iff.mp nested
  rw [joined?, holds, Option.bind_some] at joined
  split at joined
  · cases joined
  · rename_i nonempty
    cases joined
    rcases oneNested_spec done with ⟨empty, _⟩ | ⟨ms, a, _, _, declared, inner, rfl⟩
    · exact absurd empty nonempty
    · have whole := readDeclared_mono ((Nat.sub_le levels 1).trans room)
        (readDeclared_flatten declared)
      refine ⟨a, rfl, ?_⟩
      rw [Codec.decode?, whole]
      exact grows _ _ inner

theorem exists_records {α : Type} {numbers : List Nat} {read : Message → Option α} {levels : Nat}
    {m : Message} {number : Nat} {as : List α}
    (nested : (m.eachBytes? number).bind (eachNested numbers read levels) = some as) :
    ∃ ms, ((m.eachBytes? number).bind fun inputs =>
        inputs.mapM (readDeclared numbers (levels - 1))) = some ms ∧
      List.Forall₂ (fun m a => read m = some a) ms as := by
  obtain ⟨inputs, holds, done⟩ := Option.bind_eq_some_iff.mp nested
  obtain ⟨ms, declared, reads⟩ := exists_between ((eachNested_spec done).imp fun _ _ => And.right)
  exact ⟨ms, by rw [holds, Option.bind_some, mapM_eq_some_iff]; exact declared, reads⟩

theorem length_flatten_le {m : Message} {number : Nat} {pieces : List (List UInt8)}
    (h : m.eachBytes? number = some pieces) : pieces.flatten.length ≤ m.weight := by
  have field : m.fieldWeight number ≤ m.weight := by
    simpa using m.sum_fieldWeight_le (List.nodup_singleton number)
  rw [Message.fieldWeight_of_eachBytes? h, Field.weight_eachBytes] at field
  rw [List.length_flatten]
  refine le_trans (List.sum_le_sum fun piece _ => ?_) field
  omega

theorem length_joined_le {m : Message} {number : Nat} {bytes : List UInt8}
    (h : joined? m number = some bytes) : bytes.length ≤ m.weight := by
  obtain ⟨pieces, holds, joined⟩ := Option.bind_eq_some_iff.mp h
  split at joined
  · cases joined
  · cases joined
    exact length_flatten_le holds

theorem weight_records_le {numbers : List Nat} {levels number : Nat} {m r : Message}
    {ms : List Message}
    (h : ((m.eachBytes? number).bind fun inputs => inputs.mapM (readDeclared numbers levels)) =
      some ms) (member : r ∈ ms) : r.weight ≤ m.weight := by
  obtain ⟨pieces, holds, reads⟩ := Option.bind_eq_some_iff.mp h
  obtain ⟨piece, inside, declared⟩ := mem_of_mapM reads member
  have part : piece.length ≤ pieces.flatten.length := (List.sublist_flatten_of_mem inside).length_le
  exact (weight_of_readDeclared declared).trans (part.trans (length_flatten_le holds))

theorem length_storedPayload_le {bytes : List UInt8} {id : Nat} {name : String} {p : Payload}
    (h : storedPayload? bytes id name = some p) : p.bytes.length ≤ bytes.length := by
  obtain ⟨nodes, main, h⟩ := Option.bind_eq_some_iff.mp h
  obtain ⟨node, at_id, h⟩ := Option.bind_eq_some_iff.mp h
  obtain ⟨as, attributes, h⟩ := Option.bind_eq_some_iff.mp h
  obtain ⟨a, found, raw⟩ := Option.bind_eq_some_iff.mp h
  obtain ⟨model, declared, main⟩ := Option.bind_eq_some_iff.mp main
  obtain ⟨inner, joined, main⟩ := Option.bind_eq_some_iff.mp main
  obtain ⟨graph, declared', records⟩ := Option.bind_eq_some_iff.mp main
  obtain ⟨type, _, raw⟩ := Option.bind_eq_some_iff.mp raw
  have payload : p.bytes.length ≤ a.weight := by
    split at raw
    · obtain ⟨_, joined, rfl⟩ := Option.map_eq_some_iff.mp raw
      exact length_joined_le joined
    · obtain ⟨_, joined, rfl⟩ := Option.map_eq_some_iff.mp raw
      exact length_joined_le joined
    · cases raw
  calc p.bytes.length ≤ a.weight := payload
    _ ≤ node.weight := weight_records_le attributes (List.mem_of_find?_eq_some found)
    _ ≤ graph.weight := weight_records_le records (List.mem_of_getElem? at_id)
    _ ≤ inner.length := weight_of_readDeclared declared'
    _ ≤ model.weight := length_joined_le joined
    _ ≤ bytes.length := weight_of_readDeclared declared

theorem mainNodes?_of_decode? {bytes : List UInt8} {x : Model} {graph : Graph}
    (decoded : Model.codec.decode? bytes = some x) (held : x.graph = some graph) :
    ∃ nodes, mainNodes? bytes = some nodes ∧
      List.Forall₂ (fun m n => Node.ofMessage? (nestingLimit - 2) m = some n) nodes graph.nodes := by
  obtain ⟨model, declared, read⟩ := Option.bind_eq_some_iff.mp decoded
  obtain ⟨pieces, holds, nested⟩ :=
    Option.bind_eq_some_iff.mp (Model.ofMessage?_eq_some_iff.mp read).graph
  rcases oneNested_spec nested with ⟨_, none⟩ | ⟨ms, _, nonempty, _, each, readGraph, same⟩
  · rw [none] at held
    cases held
  · cases same.symm.trans held
    obtain ⟨nodes, inner, reads⟩ := exists_records (Graph.ofMessage?_eq_some_iff.mp readGraph).nodes
    refine ⟨nodes, ?_, reads⟩
    have whole : readDeclared Graph.numbers (nestingLimit - 1) pieces.flatten = some ms.flatten :=
      readDeclared_flatten each
    exact Option.bind_eq_some_iff.mpr ⟨model, declared, Option.bind_eq_some_iff.mpr
      ⟨_, joined?_of_pieces holds nonempty, Option.bind_eq_some_iff.mpr ⟨_, whole, inner⟩⟩⟩

theorem attributes?_of_ofMessage? {m : Message} {n : Node}
    (read : Node.ofMessage? (nestingLimit - 2) m = some n) :
    ∃ as, attributes? m = some as ∧ List.Forall₂
      (fun m a => Attribute.ofMessage? (nestingLimit - 3) m = some a) as n.attributes :=
  exists_records (Node.ofMessage?_eq_some_iff.mp read).attributes

theorem rawPayload?_tensor {a : Attribute} {t : Tensor}
    (type : AttributeType.ofNumber? a.type = some .tensor) (held : a.t = some t) :
    rawPayload? a.toMessage = some ⟨.tensor, Tensor.codec.encode t⟩ := by
  have typed : a.toMessage.int32? 20 = some a.type :=
    Message.int32?_of_contents (by simp [Attribute.toMessage_eq])
  have pieces : a.toMessage.eachBytes? 5 = some [Tensor.codec.encode t] :=
    Message.eachBytes?_of_contents (by simp [Attribute.toMessage_eq, held])
  simp [rawPayload?, typed, type, joined?_of_pieces pieces]

theorem rawPayload?_graph {a : Attribute} {g : Graph}
    (type : AttributeType.ofNumber? a.type = some .graph) (held : a.g = some g) :
    rawPayload? a.toMessage = some ⟨.graph, Graph.codec.encode g⟩ := by
  have typed : a.toMessage.int32? 20 = some a.type :=
    Message.int32?_of_contents (by simp [Attribute.toMessage_eq])
  have pieces : a.toMessage.eachBytes? 6 = some [Graph.codec.encode g] :=
    Message.eachBytes?_of_contents (by simp [Attribute.toMessage_eq, held])
  simp [rawPayload?, typed, type, joined?_of_pieces pieces]

theorem Codec.WellFormed.mapM_encode {α : Type} {c : Codec α} (h : c.WellFormed) {as : List α}
    (size : ∀ a ∈ as, (c.encode a).length < 2 ^ 64) (levels : Nat) :
    (as.map c.encode).mapM (readDeclared c.numbers levels) = some (as.map c.toMessage) := by
  refine mapM_eq_some_iff.mpr (List.forall₂_map_left_iff.mpr (List.forall₂_map_right_iff.mpr ?_))
  exact List.forall₂_same.mpr fun a member => h.readDeclared_encode (size a member) levels

theorem attributes?_toMessage {n : Node} (size : (Node.codec.encode n).length < 2 ^ 64) :
    attributes? n.toMessage = some (n.attributes.map Attribute.toMessage) := by
  have pieces : n.toMessage.eachBytes? 5 = some (n.attributes.map Attribute.codec.encode) :=
    Message.eachBytes?_of_contents (by simp [Node.toMessage_eq])
  rw [attributes?, pieces]
  exact Attribute.codec_wellFormed.mapM_encode
    (fun a member => (Node.length_encode_attribute member).trans_lt size) _

theorem mainNodes?_encode {x : Model} {graph : Graph} (held : x.graph = some graph)
    (size : (Model.codec.encode x).length < 2 ^ 64) :
    mainNodes? (Model.codec.encode x) = some (graph.nodes.map Node.toMessage) := by
  have model := Model.codec_wellFormed.readDeclared_encode size nestingLimit
  have piece : (Model.codec.toMessage x).eachBytes? 7 = some [Graph.codec.encode graph] :=
    Message.eachBytes?_of_contents (by simp [Model.codec, Model.toMessage_eq, held])
  have inner := Graph.codec_wellFormed.readDeclared_encode
    ((Model.length_encode_graph held).trans_lt size) (nestingLimit - 1)
  have pieces : (Graph.codec.toMessage graph).eachBytes? 1 =
      some (graph.nodes.map Node.codec.encode) :=
    Message.eachBytes?_of_contents (by simp [Graph.codec, Graph.toMessage_eq])
  have nodes := Node.codec_wellFormed.mapM_encode
    (fun n member => (Model.length_encode_node held member).trans_lt size) (nestingLimit - 2)
  refine Option.bind_eq_some_iff.mpr ⟨_, model, Option.bind_eq_some_iff.mpr
    ⟨_, joined?_of_pieces piece (List.cons_ne_nil _ _), ?_⟩⟩
  rw [List.flatten_singleton]
  exact Option.bind_eq_some_iff.mpr ⟨_, inner, Option.bind_eq_some_iff.mpr ⟨_, pieces, nodes⟩⟩

theorem MessageType.encode_eq_iff {t : MessageType} {bytes : List UInt8} {x : t.Value}
    (decoded : t.codec.decode? bytes = some x) (small : bytes.length < 2 ^ 63) :
    t.codec.encode x = bytes ↔ ∃ y, t.depth y ≤ nestingLimit ∧ bytes = t.codec.encode y := by
  constructor
  · rintro rfl
    exact ⟨x, t.depth_le_of_decode? decoded, rfl⟩
  · rintro ⟨y, deep, rfl⟩
    have back := t.decode?_encode deep (small.trans (by decide))
    cases decoded.symm.trans back
    exact t.encode_dropZeroSign y

end Onnx

namespace Attribute

/-- The message type of payloads of a kind. -/
def PayloadKind.messageType : PayloadKind → Onnx.MessageType
  | tensor => .tensor
  | graph => .graph

/-- Whether a payload is what is written for the message that another one is read as. -/
structure Payload.Reencodes (p p' : Payload) : Prop where
  kind : p'.kind = p.kind
  bytes : ∃ x, p.kind.messageType.codec.decode? p.bytes = some x ∧
    p'.bytes = p.kind.messageType.codec.encode x

/-- Whether the declared part of a payload, and nothing else, is in another one. -/
structure Payload.Reduces (p p' : Payload) : Prop where
  kind : p'.kind = p.kind
  same : ∃ x x', p.kind.messageType.codec.decode? p.bytes = some x ∧
    p.kind.messageType.codec.decode? p'.bytes = some x' ∧ p.kind.messageType.Same x' x
  declared : ∃ m, Wire.Message.read? p'.bytes = some m ∧
    ∀ r ∈ m, r.number ∈ p.kind.messageType.codec.numbers
  unchanged : p' = p ↔ ∃ x, p.kind.messageType.depth x ≤ Onnx.nestingLimit ∧
    p.bytes = p.kind.messageType.codec.encode x

open Onnx in
theorem Payload.Reencodes.reduces {p p' : Payload} (h : p.Reencodes p')
    (small : p.bytes.length < 2 ^ 63) : p.Reduces p' := by
  obtain ⟨kind, bytes⟩ := p
  obtain ⟨kind', written⟩ := p'
  obtain ⟨same, x, decoded, encoded⟩ := h
  dsimp only at same decoded encoded small
  subst same encoded
  have size : (kind'.messageType.codec.encode x).length < 2 ^ 64 := by
    have := kind'.messageType.length_encode_le_of_decode? decoded
    omega
  have deep := kind'.messageType.depth_le_of_decode? decoded
  have lawful := kind'.messageType.codec_wellFormed
  have back := kind'.messageType.decode?_encode deep size
  have whole := Wire.Message.read?_write
    (writable_of_within (lawful.within x) lawful.valid size)
  refine ⟨rfl, ⟨x, _, decoded, back, kind'.messageType.dropZeroSign_same x⟩,
    ⟨_, whole, lawful.within x⟩, ?_⟩
  rw [Payload.mk.injEq, and_iff_right rfl]
  exact MessageType.encode_eq_iff decoded small

open Onnx in
theorem Payload.reencodes_of_rawPayload? {m : Wire.Message} {a : Onnx.Attribute} {p : Payload}
    {v : Value} (read : Onnx.Attribute.ofMessage? (nestingLimit - 3) m = some a)
    (raw : rawPayload? m = some p) (value : Value.ofMessage a = .ok v) :
    ∃ p', v = .payload p' ∧ p.Reencodes p' := by
  have held := Onnx.Attribute.ofMessage?_eq_some_iff.mp read
  obtain ⟨n, type, raw⟩ := Option.bind_eq_some_iff.mp raw
  cases type.symm.trans held.type
  split at raw
  · rename_i isTensor
    obtain ⟨bytes, joined, rfl⟩ := Option.map_eq_some_iff.mp raw
    obtain ⟨t, present, decoded⟩ := decode?_of_joined? (c := Onnx.Tensor.codec) joined held.t
      (by decide) fun _ _ => id
    have made : Value.ofMessage a = .ok (.payload ⟨.tensor, Onnx.Tensor.codec.encode t⟩) := by
      simp only [Value.ofMessage, isTensor, present, Value.ofPayload]
    cases value.symm.trans made
    exact ⟨_, rfl, rfl, t, decoded, rfl⟩
  · rename_i isGraph
    obtain ⟨bytes, joined, rfl⟩ := Option.map_eq_some_iff.mp raw
    obtain ⟨g, present, decoded⟩ := decode?_of_joined? (c := Onnx.Graph.codec) joined held.g
      (by decide) fun _ _ => Onnx.Graph.ofMessage?_mono (by decide)
    have made : Value.ofMessage a = .ok (.payload ⟨.graph, Onnx.Graph.codec.encode g⟩) := by
      simp only [Value.ofMessage, isGraph, present, Value.ofPayload]
    cases value.symm.trans made
    exact ⟨_, rfl, rfl, g, decoded, rfl⟩
  · cases raw

theorem Payload.rawPayload?_toMessage {p : Payload} {name : String} {a : Onnx.Attribute}
    (written : p.toMessage? name = some a) :
    a.name = name ∧ Onnx.rawPayload? a.toMessage = some p.canonical := by
  obtain ⟨kind, bytes⟩ := p
  cases kind with
  | tensor =>
    obtain ⟨t, decoded, rfl⟩ := Option.map_eq_some_iff.mp written
    rw [canonical, decoded]
    exact ⟨rfl, Onnx.rawPayload?_tensor (ofNumber?_number _) rfl⟩
  | graph =>
    obtain ⟨g, decoded, rfl⟩ := Option.map_eq_some_iff.mp written
    rw [canonical, decoded]
    exact ⟨rfl, Onnx.rawPayload?_graph (ofNumber?_number _) rfl⟩

theorem Value.name_of_toMessage {v : Value} {name : String} {a : Onnx.Attribute}
    (written : v.toMessage name = .ok a) (size : (Onnx.Attribute.codec.encode a).length < 2 ^ 64) :
    a.name = name := by
  have named := (Value.settles written size).named
  rwa [Onnx.Attribute.dropZeroSign_eq] at named

end Attribute

open Attribute (Payload)

open Onnx

variable {id : Nat} {name : String} {p : Payload}

theorem Node.get?_of_rawPayload? {m a : Wire.Message} {n : Onnx.Node} {node : Node}
    {as : List Wire.Message} (read : Onnx.Node.ofMessage? (nestingLimit - 2) m = some n)
    (made : ofMessage n = .ok node) (attributes : attributes? m = some as)
    (found : (as.find? fun a => a.text? 1 = some name) = some a) (raw : rawPayload? a = some p) :
    ∃ p', node.attributes.get? name = some (.payload p') ∧ p.Reencodes p' := by
  obtain ⟨as', attributes', reads⟩ := attributes?_of_ofMessage? read
  cases attributes.symm.trans attributes'
  obtain ⟨x, inside, readAttribute⟩ := exists_of_mem_left reads (List.mem_of_find?_eq_some found)
  obtain ⟨entries, related, distinct, rfl⟩ := ofMessage_eq_ok_iff.mp made
  obtain ⟨⟨name', v⟩, member, rfl, value⟩ := exists_of_mem_left related inside
  have called : a.text? 1 = some name := by simpa using List.find?_some found
  cases called.symm.trans (Onnx.Attribute.ofMessage?_eq_some_iff.mp readAttribute).name
  obtain ⟨p', rfl, reencodes⟩ := Payload.reencodes_of_rawPayload? readAttribute raw value
  refine ⟨p', NameMap.mem_entries_iff.mp ?_, reencodes⟩
  exact (NameMap.ofList_perm distinct).mem_iff.mpr member

namespace Graph

variable {bytes : List UInt8} {g : Graph}

/-- What is loaded of a payload is what is written for the message that it is read as. -/
theorem get?_of_storedPayload? (loaded : ofOnnx bytes = .ok g)
    (stored : storedPayload? bytes id name = some p) :
    ∃ node p', g.nodes[id]? = some node ∧ node.attributes.get? name = some (.payload p') ∧
      p.Reencodes p' := by
  unfold ofOnnx at loaded
  split at loaded
  · rename_i x decoded
    obtain ⟨graph, held, nodes, related, rfl⟩ := ofModel_eq_ok_iff.mp loaded
    obtain ⟨ms, records, reads⟩ := mainNodes?_of_decode? decoded held
    simp only [storedPayload?, records, Option.bind_eq_bind, Option.bind_some,
      Option.bind_eq_some_iff] at stored
    obtain ⟨m, at_id, as, attributes, a, found, raw⟩ := stored
    obtain ⟨n, at_id, read⟩ := exists_getElem? reads at_id
    obtain ⟨node, at_id, made⟩ := exists_getElem? related at_id
    obtain ⟨p', holds, reencodes⟩ := Node.get?_of_rawPayload? read made attributes found raw
    exact ⟨node, p', at_id, holds, reencodes⟩
  · cases loaded

/-- What is written of a payload that a graph holds. -/
theorem storedPayload?_of_get? {x : Onnx.Model} {node : Node} (written : g.toModel = .ok x)
    (size : (Model.codec.encode x).length < 2 ^ 64) (at_id : g.nodes[id]? = some node)
    (holds : node.attributes.get? name = some (.payload p)) :
    storedPayload? (Model.codec.encode x) id name = some p.canonical := by
  obtain ⟨nodes, related, rfl⟩ := toModel_eq_ok_iff.mp written
  obtain ⟨n, at_n, made⟩ := exists_getElem? related at_id
  have small := (Model.length_encode_node rfl (List.mem_of_getElem? at_n)).trans_lt size
  obtain ⟨attributes, entries, rfl⟩ := Node.toMessage_eq_ok_iff.mp made
  have named (a : Onnx.Attribute) : a.toMessage.text? 1 = some a.name :=
    Wire.Message.text?_of_contents (by simp [Attribute.toMessage_eq])
  have sized : ∀ a ∈ attributes, (Attribute.codec.encode a).length < 2 ^ 64 := fun a member =>
    (Node.length_encode_attribute member).trans_lt small
  cases found : (attributes.map Attribute.toMessage).find? fun m => m.text? 1 = some name with
  | none =>
    obtain ⟨a, member, made⟩ := exists_of_mem_left entries (NameMap.mem_entries_iff.mpr holds)
    have called := Attribute.Value.name_of_toMessage made (sized a member)
    have missed := List.find?_eq_none.mp found _ (List.mem_map_of_mem member)
    exact absurd (decide_eq_true ((named a).trans (congrArg some called))) missed
  | some m =>
    obtain ⟨a, member, rfl⟩ := List.mem_map.mp (List.mem_of_find?_eq_some found)
    obtain ⟨⟨name', v⟩, entry, made⟩ := exists_of_mem_right entries member
    have called : a.toMessage.text? 1 = some name := by simpa using List.find?_some found
    rw [named, Attribute.Value.name_of_toMessage made (sized a member)] at called
    cases called
    cases (NameMap.mem_entries_iff.mp entry).symm.trans holds
    have held : p.toMessage? name' = some a := by
      rw [Attribute.Value.toMessage] at made
      split at made
      · rename_i a' written
        cases made
        exact written
      · cases made
    refine Option.bind_eq_some_iff.mpr ⟨_, mainNodes?_encode rfl size, Option.bind_eq_some_iff.mpr
      ⟨_, by rw [List.getElem?_map, at_n, Option.map_some], ?_⟩⟩
    refine Option.bind_eq_some_iff.mpr ⟨_, attributes?_toMessage small, ?_⟩
    exact Option.bind_eq_some_iff.mpr ⟨_, found, (Payload.rawPayload?_toMessage held).2⟩

/-- What becomes of payloads when a graph is loaded, normalized or not, and written: of each there
remains exactly what its message declares, unless an extender puts something else in its place.
Bytes in memory, read or written, are always fewer than `2 ^ 63`. -/
theorem storedPayload?_toOnnx {normalized : Graph} (size : bytes.length < 2 ^ 63)
    (loaded : ofOnnx bytes = .ok g)
    (made : normalized = g ∨ ∃ config, normalized = (Normalize.runBuiltin g config).graph) :
    ∃ written, normalized.toOnnx = .ok written ∧ (written.length < 2 ^ 63 →
      ∀ id name p, storedPayload? bytes id name = some p →
        (normalized = g ∨
          ∀ node, g.nodes[id]? = some node → name ∉ Extender.derivedNames node.opType) →
        ∃ p', storedPayload? written id name = some p' ∧ p.Reduces p') := by
  have portable : normalized.Portable := by
    have before := portable_of_ofOnnx size loaded
    rcases made with rfl | ⟨config, rfl⟩
    · exact before
    · exact Normalize.runBuiltin_portable before config
  obtain ⟨_, x, written, _⟩ := Graph.portable portable
  refine ⟨Model.codec.encode x, by rw [toOnnx, written]; rfl, fun small id name p stored kept => ?_⟩
  obtain ⟨node, p', at_id, holds, reencodes⟩ := get?_of_storedPayload? loaded stored
  have after : ∃ node', normalized.nodes[id]? = some node' ∧
      node'.attributes.get? name = some (.payload p') := by
    by_cases same : normalized = g
    · exact ⟨node, same ▸ at_id, holds⟩
    · obtain ⟨config, rfl⟩ := made.resolve_left same
      refine ⟨Registry.builtin.extendNode node, ?_,
        Registry.extendNode_payload holds (kept.resolve_left same node at_id)⟩
      rw [Normalize.runBuiltin, Normalize.run_graph, List.getElem?_map, at_id, Option.map_some]
  obtain ⟨node', at_id', holds'⟩ := after
  have whole := (portable.nodes node' (List.mem_of_getElem? at_id')).attributes name _ holds'
  have same : p'.canonical = p' := (Payload.portable whole name).1
  have stored' := storedPayload?_of_get? written (small.trans (by decide)) at_id' holds'
  rw [same] at stored'
  exact ⟨p', stored', reencodes.reduces ((length_storedPayload_le stored).trans_lt size)⟩

/-- A model with a tensor that has a field of floats, which its message does not declare. -/
def floatTensorModel : List UInt8 :=
  [58, 37, 10, 35, 34, 8, 67, 111, 110, 115, 116, 97, 110, 116, 42, 23, 10, 5, 118, 97, 108, 117,
    101, 42, 11, 10, 1, 1, 16, 1, 34, 4, 0, 0, 128, 63, 160, 1, 4]

/-- What is loaded of it. -/
def floatlessGraph : Graph :=
  { nodes :=
      [{ opType := "Constant"
         attributes := .ofList [("value", .payload ⟨.tensor, [10, 1, 1, 16, 1]⟩)] }] }

/-- What is written of it. -/
def floatlessModel : List UInt8 :=
  [58, 31, 10, 29, 34, 8, 67, 111, 110, 115, 116, 97, 110, 116, 42, 17, 10, 5, 118, 97, 108, 117,
    101, 42, 5, 10, 1, 1, 16, 1, 160, 1, 4]

/-- The floats are gone, and the dimensions and the type of the elements are there. -/
theorem storedPayload?_toOnnx_float :
    let p : Payload := ⟨.tensor, [10, 1, 1, 16, 1, 34, 4, 0, 0, 128, 63]⟩
    floatTensorModel.length < 2 ^ 63 ∧ ofOnnx floatTensorModel = .ok floatlessGraph ∧
      (Normalize.runBuiltin floatlessGraph {}).graph.toOnnx = .ok floatlessModel ∧
      floatlessModel.length < 2 ^ 63 ∧ storedPayload? floatTensorModel 0 "value" = some p ∧
      (∀ node, floatlessGraph.nodes[0]? = some node →
        "value" ∉ Extender.derivedNames node.opType) ∧
      ∃ p', storedPayload? floatlessModel 0 "value" = some p' ∧ p.Reduces p' := by
  intro p
  have size : floatTensorModel.length < 2 ^ 63 := by decide
  have loaded : ofOnnx floatTensorModel = .ok floatlessGraph := by decide
  have made : (Normalize.runBuiltin floatlessGraph {}).graph.toOnnx = .ok floatlessModel := by
    decide
  have small : floatlessModel.length < 2 ^ 63 := by decide
  have stored : storedPayload? floatTensorModel 0 "value" = some p := by decide
  have kept : ∀ node, floatlessGraph.nodes[0]? = some node →
      "value" ∉ Extender.derivedNames node.opType := by
    rintro _ ⟨⟩
    decide
  obtain ⟨_, made', keeps⟩ := storedPayload?_toOnnx size loaded (.inr ⟨{}, rfl⟩)
  cases made.symm.trans made'
  exact ⟨size, loaded, made, small, stored, kept, keeps small 0 "value" p stored (.inr kept)⟩

/-- Not every record of a payload is in the payload that is written for it. -/
theorem not_payload_untouched :
    ¬∀ (bytes : List UInt8) (g : Graph) (written : List UInt8) (id : Nat) (name : String)
      (p : Payload), ofOnnx bytes = .ok g → g.toOnnx = .ok written →
        storedPayload? bytes id name = some p →
        ∃ p', storedPayload? written id name = some p' ∧
          ∀ m, Wire.Message.read? p.bytes = some m →
            ∃ m', Wire.Message.read? p'.bytes = some m' ∧ ∀ r ∈ m, r ∈ m' := by
  intro untouched
  obtain ⟨p', stored, kept⟩ := untouched floatTensorModel floatlessGraph floatlessModel 0 "value"
    ⟨.tensor, [10, 1, 1, 16, 1, 34, 4, 0, 0, 128, 63]⟩ (by decide) (by decide) (by decide)
  have remains : storedPayload? floatlessModel 0 "value" = some ⟨.tensor, [10, 1, 1, 16, 1]⟩ := by
    decide
  cases stored.symm.trans remains
  obtain ⟨m, read, all⟩ := kept
    [⟨1, .bytes [1]⟩, ⟨2, .varint 1⟩, ⟨4, .bytes [0, 0, 128, 63]⟩] (by decide)
  have short : Wire.Message.read? [10, 1, 1, 16, 1] =
      some [⟨1, .bytes [1]⟩, ⟨2, .varint 1⟩] := by decide
  cases read.symm.trans short
  exact absurd (all ⟨4, .bytes [0, 0, 128, 63]⟩ (by decide)) (by decide)

end Graph

end OperatorGraph
