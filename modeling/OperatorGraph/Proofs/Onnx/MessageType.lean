import OperatorGraph.Proofs.Onnx.Decoded
import OperatorGraph.Proofs.Onnx.Sameness
import OperatorGraph.Proofs.Onnx.Size

/-!
The message types as one family, so that what holds for each of them is stated once.
-/

namespace OperatorGraph.Onnx

open Wire

inductive MessageType where
  | model
  | opsetId
  | graph
  | valueInfo
  | node
  | tensor
  | attr
deriving DecidableEq

namespace MessageType

abbrev Value : MessageType → Type
  | model => Model
  | opsetId => OpsetId
  | graph => Graph
  | valueInfo => ValueInfo
  | node => Node
  | tensor => Tensor
  | attr => Attribute

def codec : (t : MessageType) → Codec t.Value
  | model => Model.codec
  | opsetId => OpsetId.codec
  | graph => Graph.codec
  | valueInfo => ValueInfo.codec
  | node => Node.codec
  | tensor => Tensor.codec
  | attr => Attribute.codec

/-- How many levels of messages are nested in a message. -/
def depth : (t : MessageType) → t.Value → Nat
  | model => Model.depth
  | graph => Graph.depth
  | node => Node.depth
  | attr => Attribute.depth
  | opsetId | valueInfo | tensor => fun _ => 0

/-- Equality of messages, with floats compared as numbers. -/
def Same : (t : MessageType) → t.Value → t.Value → Prop
  | model => Model.Same
  | graph => Graph.Same
  | node => Node.Same
  | attr => Attribute.Same
  | opsetId | valueInfo | tensor => Eq

def dropZeroSign : (t : MessageType) → t.Value → t.Value
  | model => Model.dropZeroSign
  | graph => Graph.dropZeroSign
  | node => Node.dropZeroSign
  | attr => Attribute.dropZeroSign
  | opsetId | valueInfo | tensor => id

theorem codec_wellFormed (t : MessageType) : t.codec.WellFormed := by
  cases t with
  | model => exact Model.codec_wellFormed
  | opsetId => exact OpsetId.codec_wellFormed
  | graph => exact Graph.codec_wellFormed
  | valueInfo => exact ValueInfo.codec_wellFormed
  | node => exact Node.codec_wellFormed
  | tensor => exact Tensor.codec_wellFormed
  | attr => exact Attribute.codec_wellFormed

variable {levels : Nat}

theorem ofMessage?_toMessage (t : MessageType) {x : t.Value} (deep : t.depth x ≤ levels)
    (size : (t.codec.encode x).length < 2 ^ 64) :
    t.codec.ofMessage? levels (t.codec.toMessage x) = some (t.dropZeroSign x) := by
  cases t with
  | model => exact Model.ofMessage?_toMessage deep size
  | opsetId => exact OpsetId.ofMessage?_toMessage x
  | graph => exact (readBack levels).graphs x deep size
  | valueInfo => exact ValueInfo.ofMessage?_toMessage x
  | node => exact (readBack levels).nodes x deep size
  | tensor => exact Tensor.ofMessage?_toMessage x
  | attr => exact (readBack levels).attributes x deep size

theorem depth_le (t : MessageType) {m : Message} {x : t.Value}
    (h : t.codec.ofMessage? levels m = some x) : t.depth x ≤ levels := by
  cases t with
  | model => exact Model.depth_le h
  | graph => exact (readable levels).graphDepth m x h
  | node => exact (readable levels).nodeDepth m x h
  | attr => exact (readable levels).attributeDepth m x h
  | opsetId | valueInfo | tensor => exact Nat.zero_le levels

theorem doubles (t : MessageType) : Doubles t.codec (t.codec.ofMessage? levels) := by
  cases t with
  | model => exact Model.doubles
  | opsetId => exact OpsetId.doubles
  | graph => exact (readable levels).graphs
  | valueInfo => exact ValueInfo.doubles
  | node => exact (readable levels).nodes
  | tensor => exact Tensor.doubles
  | attr => exact (readable levels).attributes

theorem dropZeroSign_same (t : MessageType) (x : t.Value) : t.Same (t.dropZeroSign x) x := by
  cases t with
  | model => exact Model.dropZeroSign_same x
  | graph => exact Graph.dropZeroSign_same x
  | node => exact Node.dropZeroSign_same x
  | attr => exact Attribute.dropZeroSign_same x
  | opsetId | valueInfo | tensor => exact rfl

theorem encode_dropZeroSign (t : MessageType) (x : t.Value) :
    t.codec.encode (t.dropZeroSign x) = t.codec.encode x := by
  cases t with
  | model => exact Model.encode_dropZeroSign x
  | graph => exact Graph.encode_dropZeroSign x
  | node => exact congrArg Message.write (Node.toMessage_dropZeroSign x)
  | attr => exact congrArg Message.write (Attribute.toMessage_dropZeroSign x)
  | opsetId | valueInfo | tensor => rfl

theorem decode?_encode (t : MessageType) {x : t.Value} (deep : t.depth x ≤ nestingLimit)
    (size : (t.codec.encode x).length < 2 ^ 64) :
    t.codec.decode? (t.codec.encode x) = some (t.dropZeroSign x) :=
  t.codec_wellFormed.decode?_encode size (t.ofMessage?_toMessage deep size)

theorem length_encode (t : MessageType) (x : t.Value) :
    (t.codec.encode x).length = t.codec.encodedSize x := by
  cases t with
  | model => exact Model.length_write x
  | opsetId => exact OpsetId.length_write x
  | graph => exact Graph.length_write x
  | valueInfo => exact ValueInfo.length_write x
  | node => exact Node.length_write x
  | tensor => exact Tensor.length_write x
  | attr => exact Attribute.length_write x

theorem length_encode_le_of_decode? (t : MessageType) {bytes : List UInt8} {x : t.Value}
    (h : t.codec.decode? bytes = some x) : (t.codec.encode x).length ≤ 2 * bytes.length := by
  obtain ⟨m, small, read⟩ := decode?_spec h
  exact (t.doubles.encode_le read).trans (Nat.mul_le_mul_left 2 small)

theorem depth_le_of_decode? (t : MessageType) {bytes : List UInt8} {x : t.Value}
    (h : t.codec.decode? bytes = some x) : t.depth x ≤ nestingLimit := by
  obtain ⟨m, _, read⟩ := decode?_spec h
  exact t.depth_le read

/-- Every message that nests within the limit is read back from the bytes that are written for it,
as many as were announced; and what has been read from any bytes is written to bytes that are read
as the same message and written as they are. Bytes in memory are always fewer than `2 ^ 63`. -/
theorem decode?_encode_same (t : MessageType) :
    (∀ x : t.Value, t.depth x ≤ nestingLimit → (t.codec.encode x).length < 2 ^ 64 →
      ∃ x', t.codec.decode? (t.codec.encode x) = some x' ∧ t.Same x' x) ∧
    (∀ x : t.Value, t.codec.encodedSize x = (t.codec.encode x).length) ∧
    ∀ (bytes : List UInt8) (x : t.Value), bytes.length < 2 ^ 63 → t.codec.decode? bytes = some x →
      ∃ x', t.codec.decode? (t.codec.encode x) = some x' ∧ t.Same x' x ∧
        t.codec.encode x' = t.codec.encode x := by
  refine ⟨fun x deep size => ?_, fun x => (t.length_encode x).symm, ?_⟩
  · exact ⟨_, t.decode?_encode deep size, t.dropZeroSign_same x⟩
  · intro bytes x small decoded
    have size : (t.codec.encode x).length < 2 ^ 64 := by
      have := t.length_encode_le_of_decode? decoded
      omega
    have back := t.decode?_encode (t.depth_le_of_decode? decoded) size
    exact ⟨_, back, t.dropZeroSign_same x, t.encode_dropZeroSign x⟩

/-- A negative zero, negative numbers, a graph that is present but empty, a NaN in a list; and
dimensions of which some are packed and some stand alone. -/
theorem decode?_encode_same_negative :
    let a : Attribute :=
      { f := .ofBits 0x80000000, i := -3, g := some {}, floats := [.ofBits 0x7fc00001]
        ints := [-1, 0, 300], type := -2 }
    let bytes : List UInt8 := [8, 5, 10, 2, 1, 2, 8, 7]
    let x : Tensor := { dims := [5, 1, 2, 7] }
    (∃ a', Attribute.codec.decode? (Attribute.codec.encode a) = some a' ∧ a'.Same a) ∧
      Attribute.codec.encodedSize a = (Attribute.codec.encode a).length ∧
      Tensor.codec.decode? bytes = some x ∧
      ∃ x', Tensor.codec.decode? (Tensor.codec.encode x) = some x' ∧ x' = x ∧
        Tensor.codec.encode x' = Tensor.codec.encode x := by
  intro a bytes x
  have decoded : Tensor.codec.decode? bytes = some x := by decide
  obtain ⟨back, size, _⟩ := decode?_encode_same attr
  obtain ⟨_, _, again⟩ := decode?_encode_same tensor
  exact ⟨back a (by decide) (by decide), size a, decoded, again bytes x (by decide) decoded⟩

end MessageType

end OperatorGraph.Onnx
