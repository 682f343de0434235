/-!
The types that an ONNX attribute declares for its value.
-/

namespace OperatorGraph.Onnx

inductive AttributeType where
  | undefined
  | float
  | int
  | string
  | tensor
  | graph
  | floats
  | ints
  | strings
  | tensors
  | graphs
  | sparseTensor
  | sparseTensors
  | typeProto
  | typeProtos
deriving DecidableEq

namespace AttributeType

/-- All types, each at the place that is its number. -/
def all : List AttributeType :=
  [undefined, float, int, string, tensor, graph, floats, ints, strings, tensors, graphs,
    sparseTensor, sparseTensors, typeProto, typeProtos]

def number (t : AttributeType) : Int32 := Int32.ofNat (all.idxOf t)

def ofNumber? (n : Int32) : Option AttributeType := all.find? fun t => t.number = n

def name : AttributeType → String
  | undefined => "Undefined"
  | float => "Float"
  | int => "Int"
  | string => "String"
  | tensor => "Tensor"
  | graph => "Graph"
  | floats => "Floats"
  | ints => "Ints"
  | strings => "Strings"
  | tensors => "Tensors"
  | graphs => "Graphs"
  | sparseTensor => "SparseTensor"
  | sparseTensors => "SparseTensors"
  | typeProto => "TypeProto"
  | typeProtos => "TypeProtos"

end AttributeType

end OperatorGraph.Onnx
