import OperatorGraph.Attribute.Operation
import OperatorGraph.Attribute.Query
import OperatorGraph.Extender.Script
import OperatorGraph.Graph.Agreement
import OperatorGraph.Graph.OfModel
import OperatorGraph.Graph.ToModel
import OperatorGraph.Json.Config
import OperatorGraph.Json.File
import OperatorGraph.Normalize
import OperatorGraph.Proofs.Graph.Order
import OperatorGraph.Proofs.Walk
import OperatorGraph.Proofs.Binary.Conversion
import OperatorGraph.Proofs.Attribute.Coercion
import OperatorGraph.Proofs.Extender.Frame
import OperatorGraph.Proofs.Extender.Idempotence
import OperatorGraph.Proofs.Idempotence
import OperatorGraph.Proofs.Wire.Varint
import OperatorGraph.Proofs.Text.Utf8
import OperatorGraph.Proofs.Wire.Field
import OperatorGraph.Proofs.Onnx.Reading
import OperatorGraph.Proofs.Onnx.Nesting
import OperatorGraph.Proofs.Onnx.RoundTrip
import OperatorGraph.Proofs.Onnx.Decoded
import OperatorGraph.Proofs.Graph.Sameness
import OperatorGraph.Proofs.Graph.Canonical
import OperatorGraph.Proofs.Graph.OfModel
import OperatorGraph.Proofs.Graph.Portable
import OperatorGraph.Proofs.Graph.Size
import OperatorGraph.Proofs.Graph.Reload
import OperatorGraph.Proofs.Extender.Portable
import OperatorGraph.Proofs.Extender.Sameness
import OperatorGraph.Proofs.Reload
import OperatorGraph.Proofs.Graph.Cycle
import OperatorGraph.Proofs.Onnx.Limit
import OperatorGraph.Proofs.Graph.Expressed
import OperatorGraph.Proofs.Extender.Alone
import OperatorGraph.Proofs.Extender.Documented
import OperatorGraph.Proofs.Json.RoundTrip
import OperatorGraph.Proofs.Onnx.Sameness
import OperatorGraph.Proofs.Onnx.MessageType
import OperatorGraph.Proofs.Wire.Spelling
import OperatorGraph.Proofs.Wire.Group
import OperatorGraph.Proofs.Wire.Packing
import OperatorGraph.Proofs.Onnx.Declared
import OperatorGraph.Proofs.Onnx.Layout
import OperatorGraph.Proofs.Extender.Payload
import OperatorGraph.Proofs.Graph.Payload
import OperatorGraph.Proofs.Binary.Range
import OperatorGraph.Proofs.Json.Gives
import OperatorGraph.Proofs.Json.Finite
import OperatorGraph.Proofs.Extender.Values
import OperatorGraph.Proofs.Extender.Finite
import OperatorGraph.Proofs.Json.Normalized
import OperatorGraph.Proofs.Extender.Confined
import OperatorGraph.Proofs.Graph.LeastOrder
import OperatorGraph.Proofs.Graph.Accepted
import OperatorGraph.Proofs.Graph.Expressible
import OperatorGraph.Proofs.Graph.UnusedSlots
import OperatorGraph.Proofs.Text.Padding
import OperatorGraph.Proofs.Text.Integer
import OperatorGraph.Proofs.Text.Listing
import OperatorGraph.Proofs.Text.Dimension
import OperatorGraph.Proofs.Attribute.Denotation
import OperatorGraph.Proofs.Attribute.WrittenForms
import OperatorGraph.Proofs.Attribute.BlankElements
import OperatorGraph.Proofs.Attribute.Operation
import OperatorGraph.Proofs.Attribute.Names
import OperatorGraph.Proofs.Attribute.Reading
import OperatorGraph.Proofs.Extender.Convolution
import OperatorGraph.Proofs.Extender.Survival
import OperatorGraph.Proofs.Extender.Stride
import OperatorGraph.Proofs.Extender.Shape
import OperatorGraph.Proofs.Attribute.Contents
import OperatorGraph.Proofs.Extender.Registration
import OperatorGraph.Proofs.Extender.TypeName
import OperatorGraph.Proofs.Graph.Loop
