import OperatorGraph.Onnx.Decode
import OperatorGraph.Onnx.Encode
import OperatorGraph.Onnx.Size

/-!
Codecs: a message type together with its bytes.
-/

namespace OperatorGraph.Onnx

open Wire (Message)

/-- How values of a type are written as messages and read from them. -/
structure Codec (α : Type) where
  numbers : List Nat
  toMessage : α → Message
  ofMessage? : Nat → Message → Option α
  /-- How many bytes a value is announced to take. -/
  encodedSize : α → Nat

namespace Codec

variable {α : Type} (c : Codec α)

def encode (a : α) : List UInt8 := (c.toMessage a).write

def decode? (input : List UInt8) : Option α := do
  c.ofMessage? nestingLimit (← readDeclared c.numbers nestingLimit input)

end Codec

def OpsetId.codec : Codec OpsetId :=
  ⟨OpsetId.numbers, OpsetId.toMessage, fun _ => OpsetId.ofMessage?, OpsetId.size⟩

def ValueInfo.codec : Codec ValueInfo :=
  ⟨ValueInfo.numbers, ValueInfo.toMessage, fun _ => ValueInfo.ofMessage?, ValueInfo.size⟩

def Tensor.codec : Codec Tensor :=
  ⟨Tensor.numbers, Tensor.toMessage, fun _ => Tensor.ofMessage?, Tensor.size⟩

def Attribute.codec : Codec Attribute :=
  ⟨Attribute.numbers, Attribute.toMessage, Attribute.ofMessage?, Attribute.size⟩

def Node.codec : Codec Node := ⟨Node.numbers, Node.toMessage, Node.ofMessage?, Node.size⟩

def Graph.codec : Codec Graph := ⟨Graph.numbers, Graph.toMessage, Graph.ofMessage?, Graph.size⟩

def Model.codec : Codec Model := ⟨Model.numbers, Model.toMessage, Model.ofMessage?, Model.size⟩

end OperatorGraph.Onnx
