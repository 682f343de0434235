import OperatorGraph.Binary.Number

/-!
The messages of the ONNX format, with the fields that this library reads. An attribute may hold a
graph, so graphs nest.
-/

namespace OperatorGraph.Onnx

structure OpsetId where
  domain : String := ""
  version : Int64 := 0
deriving DecidableEq

structure ValueInfo where
  name : String := ""
  docString : String := ""
deriving DecidableEq

structure Tensor where
  dims : List Int64 := []
  dataType : Int32 := 0
  name : String := ""
  rawData : List UInt8 := []
deriving DecidableEq

mutual

structure Attribute where
  name : String := ""
  f : Binary32 := .zero
  i : Int64 := 0
  s : List UInt8 := []
  t : Option Tensor := none
  g : Option Graph := none
  floats : List Binary32 := []
  ints : List Int64 := []
  strings : List (List UInt8) := []
  docString : String := ""
  type : Int32 := 0

structure Node where
  inputs : List String := []
  outputs : List String := []
  name : String := ""
  opType : String := ""
  attributes : List Attribute := []
  docString : String := ""
  domain : String := ""

structure Graph where
  nodes : List Node := []
  name : String := ""
  initializers : List Tensor := []
  docString : String := ""
  inputs : List ValueInfo := []
  outputs : List ValueInfo := []

end

structure Model where
  irVersion : Int64 := 0
  producerName : String := ""
  producerVersion : String := ""
  domain : String := ""
  modelVersion : Int64 := 0
  docString : String := ""
  graph : Option Graph := none
  opsetImports : List OpsetId := []

end OperatorGraph.Onnx
