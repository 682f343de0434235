import OperatorGraph.Extender.Rule

/-!
Extenders, each of which normalizes the attributes of nodes of one operator type, and the built-in
ones as lists of rules.
-/

namespace OperatorGraph

structure Extender where
  opType : String
  extend : Node → Extender.Outcome

namespace Extender

open Attribute (ListForm Value)

/-- The rules for the attributes of nodes of one operator type. -/
structure Ruleset where
  opType : String
  rules : List Rule
deriving DecidableEq

def Ruleset.extender (s : Ruleset) : Extender :=
  ⟨s.opType, fun node => Rule.applyAll node s.rules node.attributes⟩

/-- A ruleset may stand where an extender is registered. -/
instance : Coe Ruleset Extender := ⟨Ruleset.extender⟩

def listsOf (form : ListForm) (names : List String) : List Rule :=
  names.map (.coerce (.listOf form))

/-- Axes may be given as one integer, as text or as a list. -/
def interpolate : Ruleset := ⟨"Interpolate", listsOf .integers ["axes"]⟩

/-- Whether an operator type is that of a transposed convolution, whose weights have the input
channels first. -/
def isTransposed (opType : String) : Bool :=
  "BackpropData".toList.isSuffixOf opType.toList

def convolutionRules (opType : String) : List Rule :=
  listsOf .integers ["strides", "dilations", "pads_begin", "pads_end", "output_padding"] ++
    [.fullRank "strides" "stride" [1, 1],
      .fullRank "dilations" "dilation" [1, 1],
      .fullRank "output_padding" "output_pad" [0, 0],
      .pads "pads_begin" "pads_end" "pad" "spatial_dims",
      .set "batch_dims" (.ints [0]),
      .set "channel_dims" (.ints [1]),
      .set "input_feature_channel" (.int (if isTransposed opType then 0 else 1)),
      .set "output_feature_channel" (.int (if isTransposed opType then 1 else 0))]

def convolution (opType : String) : Ruleset := ⟨opType, convolutionRules opType⟩

def stridedSlice : Ruleset where
  opType := "StridedSlice"
  rules :=
    ["begin_mask", "end_mask", "new_axis_mask", "shrink_axis_mask", "ellipsis_mask"].map .mask

def pad : Ruleset :=
  ⟨"Pad", .rename "pad_mode" "mode" :: listsOf .integers ["pads_begin", "pads_end"]⟩

/-- An operator whose only irregular attribute is the name of an element type. -/
def elementType (opType source target : String) : Ruleset :=
  ⟨opType, [.elementType source target false]⟩

def topK : Ruleset where
  opType := "TopK"
  rules :=
    [.flagUnusedOutput "remove_values_output",
      .coerce .integer "axis",
      .elementType "index_element_type" "index_element_type" false]

def parameter : Ruleset :=
  ⟨"Parameter", [.elementType "element_type" "data_type" true, .shape "shape"]⟩

def extractImagePatches : Ruleset :=
  ⟨"ExtractImagePatches", listsOf .integers ["sizes", "strides", "rates"]⟩

def reorgYolo : Ruleset := ⟨"ReorgYolo", [.perDimension "stride"]⟩

def priorBox : Ruleset where
  opType := "PriorBox"
  rules :=
    listsOf .floats
      ["min_size", "max_size", "aspect_ratio", "density", "fixed_ratio", "fixed_size", "variance"]

def priorBoxClustered : Ruleset :=
  ⟨"PriorBoxClustered", listsOf .floats ["width", "height", "variance"]⟩

def recurrentCell (opType : String) : Ruleset where
  opType
  rules :=
    listsOf .texts ["activations"] ++ listsOf .floats ["activations_alpha", "activations_beta"]

/-- Constant folding must not go through a quantization. -/
def fakeQuantize : Ruleset := ⟨"FakeQuantize", [.set "stop_value_propagation" (.int 1)]⟩

def builtinRules : List Ruleset :=
  [interpolate,
    convolution "Convolution",
    convolution "GroupConvolution",
    convolution "BinaryConvolution",
    convolution "DeformableConvolution",
    convolution "ConvolutionBackpropData",
    convolution "GroupConvolutionBackpropData",
    stridedSlice,
    pad,
    elementType "Convert" "destination_type" "dst_type",
    elementType "NonZero" "output_type" "output_type",
    elementType "ShapeOf" "output_type" "output_type",
    elementType "Bucketize" "output_type" "output_type",
    topK,
    parameter,
    extractImagePatches,
    reorgYolo,
    priorBox,
    priorBoxClustered,
    recurrentCell "LSTMCell",
    recurrentCell "GRUCell",
    recurrentCell "RNNCell",
    fakeQuantize]

def builtins : List Extender := builtinRules.map Ruleset.extender

theorem mem_builtins_iff {e : Extender} : e ∈ builtins ↔ ∃ s ∈ builtinRules, s.extender = e :=
  List.mem_map

theorem Ruleset.extender_mem_builtins (s : Ruleset) (h : s ∈ builtinRules) :
    s.extender ∈ builtins :=
  List.mem_map_of_mem h

end Extender

end OperatorGraph
