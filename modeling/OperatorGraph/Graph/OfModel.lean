import OperatorGraph.Event
import OperatorGraph.Onnx.AttributeType
import OperatorGraph.Onnx.Codec

/-!
Graphs from ONNX models. Attributes that hold a tensor or a graph keep it in its encoded form.
-/

namespace OperatorGraph

open Attribute (PayloadKind Value)

/-- Why a model has no graph in this library. -/
inductive DecodeFault where
  | malformed
  | unknownType (number : Int32)
  | missingField (field : String)
  | unsupportedType (name : String) (type : Onnx.AttributeType)
  | duplicate (node name : String)
  | notUtf8 (name : String)
deriving DecidableEq

namespace DecodeFault

def message : DecodeFault → String
  | malformed | unknownType _ => "Protobuf decoding error"
  | missingField field => s!"Missing field \"{field}\""
  | unsupportedType name type => s!"Unsupported type {type.name} for attribute \"{name}\""
  | duplicate node name => s!"Duplicate attribute \"{name}\" on node {node}"
  | notUtf8 name => s!"Attribute \"{name}\" holds a string that is not valid UTF-8"

/-- What lies behind a decoding error. -/
def cause? : DecodeFault → Option String
  | malformed => some "malformed"
  | unknownType number => some s!"unknown enumeration value {number.toInt}"
  | _ => none

end DecodeFault

/-- An empty name counts as none. -/
def optionalName (name : String) : Option String := if name = "" then none else some name

namespace Attribute.Value

def readText (name : String) (bytes : List UInt8) : Except DecodeFault String :=
  match Text.ofUtf8? bytes with
  | some s => .ok s
  | none => .error (.notUtf8 name)

def ofPayload {α : Type} (kind : PayloadKind) (field : String) (codec : Onnx.Codec α) :
    Option α → Except DecodeFault Value
  | some message => .ok (.payload ⟨kind, codec.encode message⟩)
  | none => .error (.missingField field)

/-- The value in the slot that the attribute's type names. -/
def ofMessage (a : Onnx.Attribute) : Except DecodeFault Value :=
  match Onnx.AttributeType.ofNumber? a.type with
  | none => .error (.unknownType a.type)
  | some .float => .ok (.scalar (.float a.f.widen))
  | some .int => .ok (.int a.i)
  | some .string => (readText a.name a.s).map .text
  | some .floats => .ok (.list (a.floats.map fun x => .float x.widen))
  | some .ints => .ok (.ints a.ints)
  | some .strings => (a.strings.mapM (readText a.name)).map fun ss => .list (ss.map .text)
  | some .tensor => ofPayload .tensor "attribute.t" Onnx.Tensor.codec a.t
  | some .graph => ofPayload .graph "attribute.g" Onnx.Graph.codec a.g
  | some type => .error (.unsupportedType a.name type)

end Attribute.Value

namespace Node

def addAttribute (node : Node) (a : Onnx.Attribute) : Except DecodeFault Node :=
  if node.attributes.contains a.name then .error (.duplicate node.displayName a.name)
  else
    (Value.ofMessage a).map fun value =>
      { node with attributes := node.attributes.insert a.name value }

def ofMessage (n : Onnx.Node) : Except DecodeFault Node :=
  n.attributes.foldlM addAttribute
    { opType := n.opType
      name := optionalName n.name
      domain := n.domain
      inputs := n.inputs
      outputs := n.outputs }

end Node

namespace Graph

def ofModel (model : Onnx.Model) : Except DecodeFault Graph :=
  match model.graph with
  | none => .error (.missingField "graph")
  | some g =>
    (g.nodes.mapM Node.ofMessage).map fun nodes =>
      { name := optionalName g.name
        opsetImports := model.opsetImports.map fun o => ⟨o.domain, o.version⟩
        inputs := g.inputs.map (·.name)
        outputs := g.outputs.map (·.name)
        nodes }

def ofOnnx (bytes : List UInt8) : Except DecodeFault Graph :=
  match Onnx.Model.codec.decode? bytes with
  | some model => ofModel model
  | none => .error .malformed

/-- Logged when a model has been turned into a graph. -/
def decodedEvent (g : Graph) : Event := .decoded g.name g.nodes.length

end Graph

end OperatorGraph
