import OperatorGraph.Graph.Basic
import OperatorGraph.Onnx.AttributeType
import OperatorGraph.Onnx.Codec

/-!
ONNX models from graphs. The format has no booleans, keeps floats in single precision, and has
lists of one element kind only.
-/

namespace OperatorGraph

open Attribute (Payload PayloadKind Scalar Value flag)

/-- Why a graph has no ONNX model. -/
inductive EncodeFault where
  | heterogeneous (name : String)
  | corruptPayload (name : String) (kind : PayloadKind)
deriving DecidableEq

def EncodeFault.message : EncodeFault → String
  | heterogeneous name =>
    s!"Attribute \"{name}\" mixes element kinds that cannot share one ONNX list"
  | corruptPayload name kind =>
    s!"Opaque attribute \"{name}\" does not hold a valid encoded {kind.name}"

namespace Attribute

namespace Scalar

def isFloat : Scalar → Bool
  | .float _ => true
  | _ => false

def isText : Scalar → Bool
  | .text _ => true
  | _ => false

def utf8? : Scalar → Option (List UInt8)
  | .text s => some (Text.utf8 s)
  | _ => none

def single? : Scalar → Option Binary32
  | .float x => some x.narrow
  | .int n => some (.ofInt n.toInt)
  | _ => none

def integer? : Scalar → Option Int64
  | .int n => some n
  | .bool b => some (flag b)
  | _ => none

/-- A scalar in the slot for its kind. -/
def toMessage (name : String) : Scalar → Onnx.Attribute
  | .int n => { name, type := Onnx.AttributeType.int.number, i := n }
  | .bool b => { name, type := Onnx.AttributeType.int.number, i := flag b }
  | .float x => { name, type := Onnx.AttributeType.float.number, f := x.narrow }
  | .text s => { name, type := Onnx.AttributeType.string.number, s := Text.utf8 s }

end Scalar

/-- A list in the slot for texts if it holds one, else in that for floats if it holds one, else in
that for integers. -/
def listMessage? (name : String) (elements : List Scalar) : Option Onnx.Attribute :=
  if elements.any Scalar.isText then
    (elements.mapM Scalar.utf8?).map fun strings =>
      { name, type := Onnx.AttributeType.strings.number, strings }
  else if elements.any Scalar.isFloat then
    (elements.mapM Scalar.single?).map fun floats =>
      { name, type := Onnx.AttributeType.floats.number, floats }
  else
    (elements.mapM Scalar.integer?).map fun ints =>
      { name, type := Onnx.AttributeType.ints.number, ints }

def Payload.toMessage? (name : String) (p : Payload) : Option Onnx.Attribute :=
  match p.kind with
  | .tensor =>
    (Onnx.Tensor.codec.decode? p.bytes).map fun t =>
      { name, type := Onnx.AttributeType.tensor.number, t := some t }
  | .graph =>
    (Onnx.Graph.codec.decode? p.bytes).map fun g =>
      { name, type := Onnx.AttributeType.graph.number, g := some g }

def Value.toMessage (name : String) : Value → Except EncodeFault Onnx.Attribute
  | .scalar s => .ok (s.toMessage name)
  | .list elements =>
    match listMessage? name elements with
    | some a => .ok a
    | none => .error (.heterogeneous name)
  | .payload p =>
    match p.toMessage? name with
    | some a => .ok a
    | none => .error (.corruptPayload name p.kind)

end Attribute

def Node.toMessage (node : Node) : Except EncodeFault Onnx.Node :=
  (node.attributes.entries.mapM fun (name, value) => Value.toMessage name value).map
    fun attributes =>
      { inputs := node.inputs
        outputs := node.outputs
        name := node.name.getD ""
        opType := node.opType
        attributes
        domain := node.domain }

namespace Graph

def toModel (g : Graph) : Except EncodeFault Onnx.Model :=
  (g.nodes.mapM Node.toMessage).map fun nodes =>
    { graph := some {
        nodes
        name := g.name.getD ""
        inputs := g.inputs.map fun name => { name }
        outputs := g.outputs.map fun name => { name } }
      opsetImports := g.opsetImports.map fun o => ⟨o.domain, o.version⟩ }

def toOnnx (g : Graph) : Except EncodeFault (List UInt8) := g.toModel.map Onnx.Model.codec.encode

end Graph

end OperatorGraph
