import OperatorGraph.Onnx.Message
import OperatorGraph.Wire.Field

/-!
Messages of the ONNX format from records. `levels` says how many messages may nest inside the one
that is read. A message that occurs more than once in a field for one is read as if its
occurrences had been written in one piece.
-/

namespace OperatorGraph.Onnx

open Wire (Message)

/-- How deep messages may nest inside the outermost one. -/
def nestingLimit : Nat := 100

/-- The records of the declared fields in an input. -/
def readDeclared (numbers : List Nat) (levels : Nat) (input : List UInt8) : Option Message := do
  Message.declared numbers.contains levels [] (← Message.read? input)

/-- Reads each of the nested messages with one level less. -/
def eachNested {α : Type} (numbers : List Nat) (read : Message → Option α) :
    Nat → List (List UInt8) → Option (List α)
  | _, [] => some []
  | 0, _ => none
  | levels + 1, inputs => inputs.mapM fun input => do
    read (← readDeclared numbers levels input)

/-- The nested value that all inputs together make up, if there are any. -/
def oneNested {α : Type} (numbers : List Nat) (read : Message → Option α) :
    Nat → List (List UInt8) → Option (Option α)
  | _, [] => some none
  | 0, _ => none
  | levels + 1, inputs => do
    return some (← read (← inputs.mapM (readDeclared numbers levels)).flatten)

def OpsetId.numbers : List Nat := [1, 2]

def OpsetId.ofMessage? (m : Message) : Option OpsetId := do
  return { domain := ← m.text? 1, version := ← m.int64? 2 }

def ValueInfo.numbers : List Nat := [1, 3]

def ValueInfo.ofMessage? (m : Message) : Option ValueInfo := do
  return { name := ← m.text? 1, docString := ← m.text? 3 }

def Tensor.numbers : List Nat := [1, 2, 8, 9]

def Tensor.ofMessage? (m : Message) : Option Tensor := do
  return {
    dims := ← m.int64s? 1
    dataType := ← m.int32? 2
    name := ← m.text? 8
    rawData := ← m.bytes? 9 }

def binary32 (bits : UInt32) : Binary32 := .ofBits bits.toNat

def Attribute.numbers : List Nat := [1, 2, 3, 4, 5, 6, 7, 8, 9, 13, 20]

def Node.numbers : List Nat := [1, 2, 3, 4, 5, 6, 7]

def Graph.numbers : List Nat := [1, 2, 5, 10, 11, 12]

/-- An attribute, given how a graph inside it is read. -/
def Attribute.readWith (readGraph : Message → Option Graph) (levels : Nat) (m : Message) :
    Option Attribute := do
  return {
    name := ← m.text? 1
    f := binary32 (← m.fixed32? 2)
    i := ← m.int64? 3
    s := ← m.bytes? 4
    t := ← oneNested Tensor.numbers Tensor.ofMessage? levels (← m.eachBytes? 5)
    g := ← oneNested Graph.numbers readGraph levels (← m.eachBytes? 6)
    floats := (← m.fixed32s? 7).map binary32
    ints := ← m.int64s? 8
    strings := ← m.eachBytes? 9
    docString := ← m.text? 13
    type := ← m.int32? 20 }

/-- A node, given how the attributes inside it are read. -/
def Node.readWith (readAttribute : Message → Option Attribute) (levels : Nat) (m : Message) :
    Option Node := do
  return {
    inputs := ← m.texts? 1
    outputs := ← m.texts? 2
    name := ← m.text? 3
    opType := ← m.text? 4
    attributes := ← eachNested Attribute.numbers readAttribute levels (← m.eachBytes? 5)
    docString := ← m.text? 6
    domain := ← m.text? 7 }

/-- A graph, given how the nodes inside it are read. -/
def Graph.readWith (readNode : Message → Option Node) (levels : Nat) (m : Message) :
    Option Graph := do
  return {
    nodes := ← eachNested Node.numbers readNode levels (← m.eachBytes? 1)
    name := ← m.text? 2
    initializers := ← eachNested Tensor.numbers Tensor.ofMessage? levels (← m.eachBytes? 5)
    docString := ← m.text? 10
    inputs := ← eachNested ValueInfo.numbers ValueInfo.ofMessage? levels (← m.eachBytes? 11)
    outputs := ← eachNested ValueInfo.numbers ValueInfo.ofMessage? levels (← m.eachBytes? 12) }

mutual

def Attribute.ofMessage? : Nat → Message → Option Attribute
  | 0 => Attribute.readWith (fun _ => none) 0
  | levels + 1 => Attribute.readWith (Graph.ofMessage? levels) (levels + 1)

def Node.ofMessage? : Nat → Message → Option Node
  | 0 => Node.readWith (fun _ => none) 0
  | levels + 1 => Node.readWith (Attribute.ofMessage? levels) (levels + 1)

def Graph.ofMessage? : Nat → Message → Option Graph
  | 0 => Graph.readWith (fun _ => none) 0
  | levels + 1 => Graph.readWith (Node.ofMessage? levels) (levels + 1)

end

def Model.numbers : List Nat := [1, 2, 3, 4, 5, 6, 7, 8]

def Model.ofMessage? (levels : Nat) (m : Message) : Option Model := do
  return {
    irVersion := ← m.int64? 1
    producerName := ← m.text? 2
    producerVersion := ← m.text? 3
    domain := ← m.text? 4
    modelVersion := ← m.int64? 5
    docString := ← m.text? 6
    graph := ← oneNested Graph.numbers (Graph.ofMessage? (levels - 1)) levels (← m.eachBytes? 7)
    opsetImports := ← eachNested OpsetId.numbers OpsetId.ofMessage? levels (← m.eachBytes? 8) }

end OperatorGraph.Onnx
