import OperatorGraph.ElementType
import OperatorGraph.Json.Graph
import OperatorGraph.Normalize

/-!
Element types and the configuration of normalization as JSON documents, and readers for them.
-/

namespace OperatorGraph

open Json (Document Reader)
open Json.Reader (once ignore item?)

namespace ElementType

/-- The name of a type in JSON, which is not the one in attributes. -/
def label : ElementType → String
  | f64 => "F64"
  | f32 => "F32"
  | bf16 => "BF16"
  | f16 => "F16"
  | u64 => "U64"
  | i64 => "I64"
  | u32 => "U32"
  | i32 => "I32"
  | u16 => "U16"
  | i16 => "I16"
  | u8 => "U8"
  | i8 => "I8"
  | boolean => "BOOL"

def toJson (t : ElementType) : Document := .text t.label

def ofJson : Reader ElementType := Reader.label (all.map fun t => (t.label, t))

end ElementType

def WalkOrder.toJson (w : WalkOrder) : Document := .text w.name

def WalkOrder.ofJson : Reader WalkOrder :=
  Reader.label ([WalkOrder.insertion, .topological].map fun w => (w.name, w))

namespace Normalize.Config

def toJson (c : Config) : Document :=
  .object [("walk_order", c.walkOrder.toJson), ("strict", .bool c.strict)]

/-- The fields of a configuration that have been read. -/
structure Draft where
  walkOrder : Option WalkOrder := none
  strict : Option Bool := none

def Draft.read (p : Draft) : String → Reader Draft
  | "walk_order" =>
    return { p with walkOrder := ← once "walk_order" p.walkOrder WalkOrder.ofJson }
  | "strict" => return { p with strict := ← once "strict" p.strict Reader.bool }
  | _ => do ignore; return p

def Draft.complete (p : Draft) : Config where
  walkOrder := p.walkOrder.getD .insertion
  strict := p.strict.getD false

def ofJsonList : Reader Config := do
  let p : Draft := {
    walkOrder := ← item? true WalkOrder.ofJson
    strict := ← item? false Reader.bool }
  return p.complete

def ofJsonObject : Reader Config := do
  return (← Reader.fields Draft.read {}).complete

def ofJson : Reader Config := Reader.record "NormalizeConfig" ofJsonList ofJsonObject

def readJson (s : String) : Except Json.Fault Config := Reader.run ofJson s

end Normalize.Config

end OperatorGraph
