import OperatorGraph.Onnx.Message
import OperatorGraph.Wire.Field

/-!
Messages of the ONNX format as records, in ascending order of the field numbers.
-/

namespace OperatorGraph.Onnx

open Wire

def OpsetId.toMessage (o : OpsetId) : Message :=
  Field.text 1 o.domain ++ Field.int64 2 o.version

def ValueInfo.toMessage (v : ValueInfo) : Message :=
  Field.text 1 v.name ++ Field.text 3 v.docString

def Tensor.toMessage (t : Tensor) : Message :=
  Field.int64s 1 t.dims ++ Field.int32 2 t.dataType ++ Field.text 8 t.name ++
    Field.bytes 9 t.rawData

def bits32 (x : Binary32) : UInt32 := x.bits.toUInt32

mutual

def Attribute.toMessage : Attribute → Message
  | ⟨name, f, i, s, t, g, floats, ints, strings, docString, type⟩ =>
    Field.text 1 name ++ Field.float 2 (bits32 f) f.isZero ++ Field.int64 3 i ++ Field.bytes 4 s ++
      Field.eachBytes 5 (t.toList.map fun t => t.toMessage.write) ++
      Field.eachBytes 6 (optionalGraphBytes g) ++ Field.floats 7 (floats.map bits32) ++
      Field.int64s 8 ints ++ Field.eachBytes 9 strings ++ Field.text 13 docString ++
      Field.int32 20 type
termination_by structural a => a

def optionalGraphBytes : Option Graph → List (List UInt8)
  | none => []
  | some g => [(Graph.toMessage g).write]

def attributesBytes : List Attribute → List (List UInt8)
  | [] => []
  | a :: rest => (Attribute.toMessage a).write :: attributesBytes rest

def Node.toMessage : Node → Message
  | ⟨inputs, outputs, name, opType, attributes, docString, domain⟩ =>
    Field.texts 1 inputs ++ Field.texts 2 outputs ++ Field.text 3 name ++ Field.text 4 opType ++
      Field.eachBytes 5 (attributesBytes attributes) ++ Field.text 6 docString ++
      Field.text 7 domain

def nodesBytes : List Node → List (List UInt8)
  | [] => []
  | n :: rest => (Node.toMessage n).write :: nodesBytes rest

def Graph.toMessage : Graph → Message
  | ⟨nodes, name, initializers, docString, inputs, outputs⟩ =>
    Field.eachBytes 1 (nodesBytes nodes) ++ Field.text 2 name ++
      Field.eachBytes 5 (initializers.map fun t => t.toMessage.write) ++
      Field.text 10 docString ++ Field.eachBytes 11 (inputs.map fun v => v.toMessage.write) ++
      Field.eachBytes 12 (outputs.map fun v => v.toMessage.write)

end

def Model.toMessage (m : Model) : Message :=
  Field.int64 1 m.irVersion ++ Field.text 2 m.producerName ++ Field.text 3 m.producerVersion ++
    Field.text 4 m.domain ++ Field.int64 5 m.modelVersion ++ Field.text 6 m.docString ++
    Field.eachBytes 7 (m.graph.toList.map fun g => g.toMessage.write) ++
    Field.eachBytes 8 (m.opsetImports.map fun o => o.toMessage.write)

end OperatorGraph.Onnx
