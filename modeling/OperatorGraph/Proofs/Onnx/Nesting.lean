import OperatorGraph.Proofs.Onnx.Reading

/-!
What a codec writes stands in its message untouched: all of its fields are declared, so they are
found again when the bytes are read, on their own or nested in another message.
-/

namespace OperatorGraph.Onnx

open Wire

variable {numbers : List Nat} {m : Message}

theorem writable_of_within (within : m.Within numbers)
    (valid : ∀ n ∈ numbers, 0 < n ∧ n < 2 ^ 29) (size : m.write.length < 2 ^ 64) :
    ∀ r ∈ m, r.Writable := by
  intro r member
  obtain ⟨pos, small⟩ := valid _ (within r member)
  refine ⟨pos, small, ?_⟩
  cases holds : r.content with
  | bytes content =>
    have inside : .bytes content ∈ m.contents r.number :=
      List.mem_map.mpr ⟨r, List.mem_filter.mpr ⟨member, decide_eq_true rfl⟩, holds⟩
    exact (Message.length_le_of_mem_contents inside).trans_lt size
  | _ => trivial

theorem readDeclared_write (within : m.Within numbers)
    (valid : ∀ n ∈ numbers, 0 < n ∧ n < 2 ^ 29) (size : m.write.length < 2 ^ 64) (levels : Nat) :
    readDeclared numbers levels m.write = some m := by
  have declared : ∀ r ∈ m, numbers.contains r.number := fun r member =>
    List.contains_iff_mem.mpr (within r member)
  rw [readDeclared, Message.read?_write (writable_of_within within valid size)]
  exact Message.declared_all declared levels

namespace Codec

variable {α : Type}

theorem length_le_of_contents {c : Codec α} {m : Message} {number : Nat} {as : List α}
    (holds : m.contents number = Message.contents (Field.eachBytes number (as.map c.encode)) number)
    {a : α} (member : a ∈ as) : (c.encode a).length ≤ m.write.length := by
  have inside : .bytes (c.encode a) ∈ m.contents number := by
    rw [holds, Field.contents_eachBytes, List.map_map]
    exact List.mem_map_of_mem member
  exact Message.length_le_of_mem_contents inside

/-- Whether all fields that a codec writes are declared, under numbers that can be written. -/
structure WellFormed (c : Codec α) : Prop where
  valid : ∀ n ∈ c.numbers, 0 < n ∧ n < 2 ^ 29
  within : ∀ a, (c.toMessage a).Within c.numbers

namespace WellFormed

variable {c : Codec α} (h : c.WellFormed)
include h

theorem readDeclared_encode {a : α} (size : (c.encode a).length < 2 ^ 64) (levels : Nat) :
    readDeclared c.numbers levels (c.encode a) = some (c.toMessage a) :=
  readDeclared_write (h.within a) h.valid size levels

theorem length_encode {a : α} (size : (c.encode a).length < 2 ^ 64) :
    (c.encode a).length = (c.toMessage a).weight :=
  Message.length_write (writable_of_within (h.within a) h.valid size)

/-- What weighs no more takes no more bytes. -/
theorem length_encode_le {a' a : α} (size : (c.encode a).length < 2 ^ 64)
    (lighter : (c.toMessage a').weight ≤ (c.toMessage a).weight) :
    (c.encode a').length ≤ (c.encode a).length :=
  ((Message.length_write_le _).trans lighter).trans (h.length_encode size).ge

theorem decode?_encode {a b : α} (size : (c.encode a).length < 2 ^ 64)
    (back : c.ofMessage? nestingLimit (c.toMessage a) = some b) :
    c.decode? (c.encode a) = some b := by
  rw [decode?, h.readDeclared_encode size]
  exact back

variable {m : Message} {number levels : Nat} {read : Message → Option α} {f : α → α}

/-- Messages in a field of `m` are read back if each of them is. -/
theorem eachNested_of_contents {as : List α}
    (holds : m.contents number = Message.contents (Field.eachBytes number (as.map c.encode)) number)
    (size : m.write.length < 2 ^ 64) (room : as ≠ [] → 0 < levels)
    (back : ∀ a ∈ as, (c.encode a).length < 2 ^ 64 → read (c.toMessage a) = some (f a)) :
    (m.eachBytes? number).bind (eachNested c.numbers read levels) = some (as.map f) := by
  rw [Message.eachBytes?_of_contents holds, Option.bind_some]
  have small : ∀ a ∈ as, (c.encode a).length < 2 ^ 64 := fun a member =>
    (length_le_of_contents holds member).trans_lt size
  cases as with
  | nil => rfl
  | cons a rest =>
    obtain ⟨levels, rfl⟩ : ∃ inner, levels = inner + 1 :=
      Nat.exists_eq_succ_of_ne_zero (room (List.cons_ne_nil a rest)).ne'
    rw [List.map_cons, eachNested, ← List.map_cons (f := c.encode), mapM_eq_some_iff,
      List.forall₂_map_left_iff, List.forall₂_map_right_iff, List.forall₂_same]
    · intro a member
      rw [h.readDeclared_encode (small a member)]
      exact back a member (small a member)
    · exact List.cons_ne_nil _ _

theorem oneNested_of_contents {a? : Option α}
    (holds : m.contents number =
      Message.contents (Field.eachBytes number (a?.toList.map c.encode)) number)
    (size : m.write.length < 2 ^ 64) (room : a? ≠ none → 0 < levels)
    (back : ∀ a ∈ a?, (c.encode a).length < 2 ^ 64 → read (c.toMessage a) = some (f a)) :
    (m.eachBytes? number).bind (oneNested c.numbers read levels) = some (a?.map f) := by
  rw [Message.eachBytes?_of_contents holds, Option.bind_some]
  cases a? with
  | none => rfl
  | some a =>
    obtain ⟨levels, rfl⟩ : ∃ inner, levels = inner + 1 :=
      Nat.exists_eq_succ_of_ne_zero (room (Option.some_ne_none a)).ne'
    have small := (length_le_of_contents holds (List.mem_singleton_self a)).trans_lt size
    have again := h.readDeclared_encode small levels
    have here := back a rfl small
    simp [oneNested, again, here]

end WellFormed

end Codec

theorem optionalGraphBytes_eq (g : Option Graph) :
    optionalGraphBytes g = g.toList.map Graph.codec.encode := by
  cases g <;> rfl

theorem attributesBytes_eq (attributes : List Attribute) :
    attributesBytes attributes = attributes.map Attribute.codec.encode := by
  induction attributes with
  | nil => rfl
  | cons a rest ih => rw [attributesBytes, ih, List.map_cons]; rfl

theorem nodesBytes_eq (nodes : List Node) : nodesBytes nodes = nodes.map Node.codec.encode := by
  induction nodes with
  | nil => rfl
  | cons n rest ih => rw [nodesBytes, ih, List.map_cons]; rfl

theorem Attribute.toMessage_eq (a : Attribute) :
    a.toMessage =
      Field.text 1 a.name ++ Field.float 2 (bits32 a.f) a.f.isZero ++ Field.int64 3 a.i ++
        Field.bytes 4 a.s ++ Field.eachBytes 5 (a.t.toList.map Tensor.codec.encode) ++
        Field.eachBytes 6 (a.g.toList.map Graph.codec.encode) ++
        Field.floats 7 (a.floats.map bits32) ++ Field.int64s 8 a.ints ++
        Field.eachBytes 9 a.strings ++ Field.text 13 a.docString ++ Field.int32 20 a.type := by
  cases a
  rw [toMessage, optionalGraphBytes_eq]
  rfl

theorem Node.toMessage_eq (n : Node) :
    n.toMessage =
      Field.texts 1 n.inputs ++ Field.texts 2 n.outputs ++ Field.text 3 n.name ++
        Field.text 4 n.opType ++ Field.eachBytes 5 (n.attributes.map Attribute.codec.encode) ++
        Field.text 6 n.docString ++ Field.text 7 n.domain := by
  cases n
  rw [toMessage, attributesBytes_eq]

theorem Graph.toMessage_eq (g : Graph) :
    g.toMessage =
      Field.eachBytes 1 (g.nodes.map Node.codec.encode) ++ Field.text 2 g.name ++
        Field.eachBytes 5 (g.initializers.map Tensor.codec.encode) ++ Field.text 10 g.docString ++
        Field.eachBytes 11 (g.inputs.map ValueInfo.codec.encode) ++
        Field.eachBytes 12 (g.outputs.map ValueInfo.codec.encode) := by
  cases g
  rw [toMessage, nodesBytes_eq]
  rfl

theorem Attribute.length_encode_tensor {a : Attribute} {t : Tensor} (h : a.t = some t) :
    (Tensor.codec.encode t).length ≤ (codec.encode a).length := by
  have holds : (codec.toMessage a).contents 5 =
      Message.contents (Field.eachBytes 5 (a.t.toList.map Tensor.codec.encode)) 5 := by
    simp [codec, toMessage_eq]
  exact Codec.length_le_of_contents holds (by simp [h])

theorem Attribute.length_encode_graph {a : Attribute} {g : Graph} (h : a.g = some g) :
    (Graph.codec.encode g).length ≤ (codec.encode a).length := by
  have holds : (codec.toMessage a).contents 6 =
      Message.contents (Field.eachBytes 6 (a.g.toList.map Graph.codec.encode)) 6 := by
    simp [codec, toMessage_eq]
  exact Codec.length_le_of_contents holds (by simp [h])

theorem Node.length_encode_attribute {n : Node} {a : Attribute} (h : a ∈ n.attributes) :
    (Attribute.codec.encode a).length ≤ (codec.encode n).length := by
  have holds : (codec.toMessage n).contents 5 =
      Message.contents (Field.eachBytes 5 (n.attributes.map Attribute.codec.encode)) 5 := by
    simp [codec, toMessage_eq]
  exact Codec.length_le_of_contents holds h

theorem Graph.length_encode_node {g : Graph} {n : Node} (h : n ∈ g.nodes) :
    (Node.codec.encode n).length ≤ (codec.encode g).length := by
  have holds : (codec.toMessage g).contents 1 =
      Message.contents (Field.eachBytes 1 (g.nodes.map Node.codec.encode)) 1 := by
    simp [codec, toMessage_eq]
  exact Codec.length_le_of_contents holds h

theorem Graph.length_encode_input {g : Graph} {v : ValueInfo} (h : v ∈ g.inputs) :
    (ValueInfo.codec.encode v).length ≤ (codec.encode g).length := by
  have holds : (codec.toMessage g).contents 11 =
      Message.contents (Field.eachBytes 11 (g.inputs.map ValueInfo.codec.encode)) 11 := by
    simp [codec, toMessage_eq]
  exact Codec.length_le_of_contents holds h

theorem Graph.length_encode_output {g : Graph} {v : ValueInfo} (h : v ∈ g.outputs) :
    (ValueInfo.codec.encode v).length ≤ (codec.encode g).length := by
  have holds : (codec.toMessage g).contents 12 =
      Message.contents (Field.eachBytes 12 (g.outputs.map ValueInfo.codec.encode)) 12 := by
    simp [codec, toMessage_eq]
  exact Codec.length_le_of_contents holds h

theorem Model.toMessage_eq (x : Model) :
    x.toMessage =
      Field.int64 1 x.irVersion ++ Field.text 2 x.producerName ++ Field.text 3 x.producerVersion ++
        Field.text 4 x.domain ++ Field.int64 5 x.modelVersion ++ Field.text 6 x.docString ++
        Field.eachBytes 7 (x.graph.toList.map Graph.codec.encode) ++
        Field.eachBytes 8 (x.opsetImports.map OpsetId.codec.encode) :=
  rfl

theorem Model.length_encode_graph {x : Model} {g : Graph} (h : x.graph = some g) :
    (Graph.codec.encode g).length ≤ (codec.encode x).length := by
  have holds : (codec.toMessage x).contents 7 =
      Message.contents (Field.eachBytes 7 (x.graph.toList.map Graph.codec.encode)) 7 := by
    simp [codec, toMessage_eq]
  exact Codec.length_le_of_contents holds (by simp [h])

theorem Model.length_encode_node {x : Model} {g : Graph} (h : x.graph = some g) {n : Node}
    (member : n ∈ g.nodes) : (Node.codec.encode n).length ≤ (codec.encode x).length :=
  (Graph.length_encode_node member).trans (length_encode_graph h)

theorem OpsetId.codec_wellFormed : OpsetId.codec.WellFormed where
  valid := by decide
  within o := by simp [codec, numbers, toMessage, Field.text, Field.within_bytes, Field.within_int64]

theorem ValueInfo.codec_wellFormed : ValueInfo.codec.WellFormed where
  valid := by decide
  within v := by simp [codec, numbers, toMessage, Field.text, Field.within_bytes]

theorem Tensor.codec_wellFormed : Tensor.codec.WellFormed where
  valid := by decide
  within t := by
    simp [codec, numbers, toMessage, Field.text, Field.int64s, Field.int32, Field.within_bytes,
      Field.within_int64]

theorem Attribute.codec_wellFormed : Attribute.codec.WellFormed where
  valid := by decide
  within a := by
    simp [codec, numbers, toMessage_eq, Field.text, Field.int64s, Field.int32, Field.floats,
      Field.within_bytes, Field.within_int64, Field.within_float, Field.within_eachBytes]

theorem Node.codec_wellFormed : Node.codec.WellFormed where
  valid := by decide
  within n := by
    simp [codec, numbers, toMessage_eq, Field.text, Field.texts, Field.within_bytes,
      Field.within_eachBytes]

theorem Graph.codec_wellFormed : Graph.codec.WellFormed where
  valid := by decide
  within g := by
    simp [codec, numbers, toMessage_eq, Field.text, Field.within_bytes, Field.within_eachBytes]

theorem Model.codec_wellFormed : Model.codec.WellFormed where
  valid := by decide
  within x := by
    simp [codec, numbers, toMessage, Field.text, Field.within_bytes, Field.within_int64,
      Field.within_eachBytes]

end OperatorGraph.Onnx
