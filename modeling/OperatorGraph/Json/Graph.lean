import OperatorGraph.Graph.Basic
import OperatorGraph.Json.Shape
import OperatorGraph.Text.Utf8

/-!
Graphs as JSON documents, and readers for them.
-/

namespace OperatorGraph

open Json (Document Reader)
open Json.Reader (once ignore require requireItem item?)

namespace Attribute

def Scalar.toJson : Scalar → Document
  | .int n => .object [("Int", .integer n.toInt)]
  | .float x => .object [("Float", .float x)]
  | .bool b => .object [("Bool", .bool b)]
  | .text s => .object [("Str", .text s)]

def Scalar.ofJson : Reader Scalar :=
  Reader.choice
    [("Int", return .int (← Reader.int64)),
      ("Float", return .float (← Reader.float)),
      ("Bool", return .bool (← Reader.bool)),
      ("Str", return .text (← Reader.string))]

def PayloadKind.label : PayloadKind → String
  | .tensor => "Tensor"
  | .graph => "Graph"

def PayloadKind.ofJson : Reader PayloadKind :=
  Reader.label ([PayloadKind.tensor, .graph].map fun kind => (kind.label, kind))

namespace Payload

def toJson (p : Payload) : Document :=
  .object
    [("kind", .text p.kind.label),
      ("bytes", .list (p.bytes.map fun b => .integer b.toNat))]

/-- The fields of a payload that have been read. -/
structure Draft where
  kind : Option PayloadKind := none
  bytes : Option (List UInt8) := none

def Draft.read (p : Draft) : String → Reader Draft
  | "kind" => return { p with kind := ← once "kind" p.kind PayloadKind.ofJson }
  | "bytes" => return { p with bytes := ← once "bytes" p.bytes (Reader.list Reader.byte) }
  | _ => do ignore; return p

def ofJsonList : Reader Payload := do
  let wanted := "struct OpaqueValue with 2 elements"
  let kind ← requireItem 0 wanted (← item? true PayloadKind.ofJson)
  let bytes ← requireItem 1 wanted (← item? false (Reader.list Reader.byte))
  return { kind, bytes }

def ofJsonObject : Reader Payload := do
  let p ← Reader.fields Draft.read {}
  return { kind := ← require "kind" p.kind, bytes := ← require "bytes" p.bytes }

def ofJson : Reader Payload := Reader.record "OpaqueValue" ofJsonList ofJsonObject

end Payload

def Value.toJson : Value → Document
  | .scalar s => .object [("Scalar", s.toJson)]
  | .list elements => .object [("List", .list (elements.map Scalar.toJson))]
  | .payload p => .object [("Opaque", p.toJson)]

def Value.ofJson : Reader Value :=
  Reader.choice
    [("Scalar", return .scalar (← Scalar.ofJson)),
      ("List", return .list (← Reader.list Scalar.ofJson)),
      ("Opaque", return .payload (← Payload.ofJson))]

def Store.toJson (store : Store) : Document :=
  .object (store.entries.map fun (name, value) => (name, value.toJson))

def Store.ofJson : Reader Store := Reader.map Value.ofJson

end Attribute

open Attribute (Store)

def textsToJson (ss : List String) : Document := .list (ss.map .text)

def nameToJson (name : Option String) : Document := (name.map .text).getD .null

def readTexts : Reader (List String) := Reader.list Reader.string

def readName : Reader (Option String) := Reader.optional Reader.string

namespace OpsetImport

def toJson (o : OpsetImport) : Document :=
  .object [("domain", .text o.domain), ("version", .integer o.version.toInt)]

/-- The fields of an operator set that have been read. -/
structure Draft where
  domain : Option String := none
  version : Option Int64 := none

def Draft.read (p : Draft) : String → Reader Draft
  | "domain" => return { p with domain := ← once "domain" p.domain Reader.string }
  | "version" => return { p with version := ← once "version" p.version Reader.int64 }
  | _ => do ignore; return p

def ofJsonList : Reader OpsetImport := do
  let wanted := "struct OpsetImport with 2 elements"
  let domain ← requireItem 0 wanted (← item? true Reader.string)
  let version ← requireItem 1 wanted (← item? false Reader.int64)
  return { domain, version }

def ofJsonObject : Reader OpsetImport := do
  let p ← Reader.fields Draft.read {}
  return { domain := ← require "domain" p.domain, version := ← require "version" p.version }

def ofJson : Reader OpsetImport := Reader.record "OpsetImport" ofJsonList ofJsonObject

end OpsetImport

namespace Node

def toJson (n : Node) : Document :=
  .object
    [("op_type", .text n.opType),
      ("name", nameToJson n.name),
      ("domain", .text n.domain),
      ("inputs", textsToJson n.inputs),
      ("outputs", textsToJson n.outputs),
      ("attributes", n.attributes.toJson)]

/-- The fields of a node that have been read. -/
structure Draft where
  opType : Option String := none
  name : Option (Option String) := none
  domain : Option String := none
  inputs : Option (List String) := none
  outputs : Option (List String) := none
  attributes : Option Store := none

def Draft.read (p : Draft) : String → Reader Draft
  | "op_type" => return { p with opType := ← once "op_type" p.opType Reader.string }
  | "name" => return { p with name := ← once "name" p.name readName }
  | "domain" => return { p with domain := ← once "domain" p.domain Reader.string }
  | "inputs" => return { p with inputs := ← once "inputs" p.inputs readTexts }
  | "outputs" => return { p with outputs := ← once "outputs" p.outputs readTexts }
  | "attributes" =>
    return { p with attributes := ← once "attributes" p.attributes Store.ofJson }
  | _ => do ignore; return p

/-- Only the operator type has no default. -/
def Draft.complete (p : Draft) (opType : String) : Node where
  opType := opType
  name := p.name.getD none
  domain := p.domain.getD ""
  inputs := p.inputs.getD []
  outputs := p.outputs.getD []
  attributes := p.attributes.getD .empty

def ofJsonList : Reader Node := do
  let opType ←
    requireItem 0 "struct IrNode with 6 elements" (← item? true Reader.string)
  let p : Draft := {
    name := ← item? false readName
    domain := ← item? false Reader.string
    inputs := ← item? false readTexts
    outputs := ← item? false readTexts
    attributes := ← item? false Store.ofJson }
  return p.complete opType

def ofJsonObject : Reader Node := do
  let p ← Reader.fields Draft.read {}
  return p.complete (← require "op_type" p.opType)

def ofJson : Reader Node := Reader.record "IrNode" ofJsonList ofJsonObject

end Node

namespace Graph

def toJson (g : Graph) : Document :=
  .object
    [("name", nameToJson g.name),
      ("opset_imports", .list (g.opsetImports.map OpsetImport.toJson)),
      ("inputs", textsToJson g.inputs),
      ("outputs", textsToJson g.outputs),
      ("nodes", .list (g.nodes.map Node.toJson))]

/-- The fields of a graph that have been read. -/
structure Draft where
  name : Option (Option String) := none
  opsetImports : Option (List OpsetImport) := none
  inputs : Option (List String) := none
  outputs : Option (List String) := none
  nodes : Option (List Node) := none

def Draft.read (p : Draft) : String → Reader Draft
  | "name" => return { p with name := ← once "name" p.name readName }
  | "opset_imports" =>
    return { p with
      opsetImports := ← once "opset_imports" p.opsetImports (Reader.list OpsetImport.ofJson) }
  | "inputs" => return { p with inputs := ← once "inputs" p.inputs readTexts }
  | "outputs" => return { p with outputs := ← once "outputs" p.outputs readTexts }
  | "nodes" => return { p with nodes := ← once "nodes" p.nodes (Reader.list Node.ofJson) }
  | _ => do ignore; return p

/-- Only the nodes have no default. -/
def Draft.complete (p : Draft) (nodes : List Node) : Graph where
  name := p.name.getD none
  opsetImports := p.opsetImports.getD []
  inputs := p.inputs.getD []
  outputs := p.outputs.getD []
  nodes := nodes

def ofJsonList : Reader Graph := do
  let p : Draft := {
    name := ← item? true readName
    opsetImports := ← item? false (Reader.list OpsetImport.ofJson)
    inputs := ← item? false readTexts
    outputs := ← item? false readTexts }
  let nodes ←
    requireItem 4 "struct IrGraph with 5 elements" (← item? false (Reader.list Node.ofJson))
  return p.complete nodes

def ofJsonObject : Reader Graph := do
  let p ← Reader.fields Draft.read {}
  return p.complete (← require "nodes" p.nodes)

def ofJson : Reader Graph := Reader.record "IrGraph" ofJsonList ofJsonObject

def writeJson (g : Graph) : String := g.toJson.indented

def readJson (s : String) : Except Json.Fault Graph := Reader.run ofJson s

end Graph

end OperatorGraph
