import OperatorGraph.Onnx.Message
import OperatorGraph.Wire.Size

/-!
How many bytes messages of the ONNX format take, found from the messages before any is written. A
nested message takes its own size and what announces it.
-/

namespace OperatorGraph.Onnx

open Wire

def OpsetId.size (o : OpsetId) : Nat := Size.text 1 o.domain + Size.int64 2 o.version

def ValueInfo.size (v : ValueInfo) : Nat := Size.text 1 v.name + Size.text 3 v.docString

def Tensor.size (t : Tensor) : Nat :=
  Size.int64s 1 t.dims + Size.int32 2 t.dataType + Size.text 8 t.name + Size.bytes 9 t.rawData

mutual

def Attribute.size : Attribute → Nat
  | ⟨name, f, i, s, t, g, floats, ints, strings, docString, type⟩ =>
    Size.text 1 name + Size.float 2 f.isZero + Size.int64 3 i + Size.bytes 4 s +
      Size.each 5 (t.toList.map Tensor.size) + Size.each 6 (optionalGraphSizes g) +
      Size.floats 7 floats.length + Size.int64s 8 ints +
      Size.each 9 (strings.map List.length) + Size.text 13 docString + Size.int32 20 type
termination_by structural a => a

def optionalGraphSizes : Option Graph → List Nat
  | none => []
  | some g => [Graph.size g]

def attributesSizes : List Attribute → List Nat
  | [] => []
  | a :: rest => Attribute.size a :: attributesSizes rest

def Node.size : Node → Nat
  | ⟨inputs, outputs, name, opType, attributes, docString, domain⟩ =>
    Size.texts 1 inputs + Size.texts 2 outputs + Size.text 3 name + Size.text 4 opType +
      Size.each 5 (attributesSizes attributes) + Size.text 6 docString + Size.text 7 domain

def nodesSizes : List Node → List Nat
  | [] => []
  | n :: rest => Node.size n :: nodesSizes rest

def Graph.size : Graph → Nat
  | ⟨nodes, name, initializers, docString, inputs, outputs⟩ =>
    Size.each 1 (nodesSizes nodes) + Size.text 2 name +
      Size.each 5 (initializers.map Tensor.size) + Size.text 10 docString +
      Size.each 11 (inputs.map ValueInfo.size) + Size.each 12 (outputs.map ValueInfo.size)

end

def Model.size (m : Model) : Nat :=
  Size.int64 1 m.irVersion + Size.text 2 m.producerName + Size.text 3 m.producerVersion +
    Size.text 4 m.domain + Size.int64 5 m.modelVersion + Size.text 6 m.docString +
    Size.each 7 (m.graph.toList.map Graph.size) + Size.each 8 (m.opsetImports.map OpsetId.size)

end OperatorGraph.Onnx
