import OperatorGraph.Graph.ToModel
import OperatorGraph.Proofs.Graph.OfModel
import OperatorGraph.Proofs.Onnx.Decoded

/-!
The form in which a graph comes back from a model: what the format cannot express has been replaced
by what it is expressed as. A graph in this form is written as the same model again.
-/

namespace OperatorGraph

namespace Attribute

namespace Scalar

/-- A zero loses its sign in a field of its own, but not in a list. -/
def canonical : Scalar → Scalar
  | .bool b => .int (flag b)
  | .float x => .float (Binary32.widen (if x.narrow.isZero then .zero else x.narrow))
  | s => s

def asFloat : Scalar → Scalar
  | .float x => .float x.narrow.widen
  | .int n => .float (Binary32.widen (.ofInt n.toInt))
  | s => s

def asInteger : Scalar → Scalar
  | .bool b => .int (flag b)
  | s => s

end Scalar

def canonicalList (elements : List Scalar) : List Scalar :=
  if elements.any Scalar.isText then elements
  else if elements.any Scalar.isFloat then elements.map Scalar.asFloat
  else elements.map Scalar.asInteger

def Payload.canonical (p : Payload) : Payload :=
  match p.kind with
  | .tensor =>
    { p with bytes := (Onnx.Tensor.codec.decode? p.bytes).elim p.bytes Onnx.Tensor.codec.encode }
  | .graph =>
    { p with bytes := (Onnx.Graph.codec.decode? p.bytes).elim p.bytes Onnx.Graph.codec.encode }

def Value.canonical : Value → Value
  | .scalar s => .scalar s.canonical
  | .list elements => .list (canonicalList elements)
  | .payload p => .payload p.canonical

/-- Whether a message is read as a value that is written as the same message again. -/
structure Settles (name : String) (a : Onnx.Attribute) (v : Value) : Prop where
  named : a.name = name
  read : Value.ofMessage a = .ok v
  written : Value.toMessage name v = .ok a

theorem dropZero_widen_narrow (x : Binary64) :
    (Binary32.widen (if x.narrow.isZero then .zero else x.narrow)).narrow =
      if x.narrow.isZero then .zero else x.narrow := by
  split
  · exact Binary32.narrow_widen rfl
  · exact x.narrow_widen_narrow

theorem Scalar.settles (name : String) (s : Scalar) :
    Settles name (s.toMessage name).dropZeroSign (.scalar s.canonical) := by
  rw [Onnx.Attribute.dropZeroSign_eq]
  cases s with
  | int n => exact ⟨rfl, rfl, rfl⟩
  | bool b => exact ⟨rfl, rfl, rfl⟩
  | float x =>
    refine ⟨rfl, rfl, ?_⟩
    simp only [Value.toMessage, canonical, toMessage, Option.map_none, dropZero_widen_narrow]
    rfl
  | text t =>
    refine ⟨rfl, ?_, rfl⟩
    simp only [toMessage, Value.ofMessage, ofNumber?_number, Value.readText, Text.ofUtf8?_utf8]
    rfl

/-- A list that is read from a message without zeros of its own or a graph. -/
theorem listSettles {name : String} {a : Onnx.Attribute} {elements : List Scalar}
    (plain : a.f = .zero ∧ a.g = none) (named : a.name = name)
    (read : Value.ofMessage a = .ok (.list elements))
    (written : listMessage? name elements = some a) :
    Settles name a.dropZeroSign (.list elements) := by
  have kept : a.dropZeroSign = a := by
    cases a
    obtain ⟨rfl, rfl⟩ := plain
    rw [Onnx.Attribute.dropZeroSign_eq]
    rfl
  rw [kept]
  refine ⟨named, read, ?_⟩
  rw [Value.toMessage, written]

theorem texts_of_utf8? {elements : List Scalar} {strings : List (List UInt8)}
    (h : elements.mapM Scalar.utf8? = some strings) :
    ∃ ss : List String, elements = ss.map .text ∧ strings = ss.map Text.utf8 := by
  have related := mapM_eq_some_iff.mp h
  clear h
  induction related with
  | nil => exact ⟨[], rfl, rfl⟩
  | @cons e _ _ _ first _ ih =>
    obtain ⟨ss, rfl, rfl⟩ := ih
    cases e with
    | text s =>
      cases first
      exact ⟨s :: ss, rfl, rfl⟩
    | _ => cases first

theorem ofInt_isNaN (n : Int) : (Binary.Number.ofInt n : Binary32).isNaN = false := by
  have small := Binary.single.round_le_infinity n.natAbs 1
  have magnitude : (Binary.Number.ofInt n : Binary32).magnitude =
      Binary.single.round n.natAbs 1 :=
    Binary.Number.ofMagnitude_magnitude (small.trans_lt Binary.Number.infinity_lt_magnitudes)
  simpa [Binary.Number.isNaN, magnitude] using small

theorem asFloat_of_single? {s : Scalar} {x : Binary32} (h : s.single? = some x) :
    s.asFloat = .float x.widen ∧ x.widen.narrow = x := by
  cases s with
  | float y =>
    cases h
    exact ⟨rfl, y.narrow_widen_narrow⟩
  | int n =>
    cases h
    exact ⟨rfl, Binary32.narrow_widen (ofInt_isNaN n.toInt)⟩
  | _ => cases h

theorem asInteger_of_integer? {s : Scalar} {n : Int64} (h : s.integer? = some n) :
    s.asInteger = .int n := by
  cases s with
  | int m =>
    cases h
    rfl
  | bool b =>
    cases h
    rfl
  | _ => cases h

/-- Elements that are read one by one are replaced one by one. -/
theorem map_of_mapM {α : Type} {f : Scalar → Option α} {g : Scalar → Scalar} {mk : α → Scalar}
    (replaced : ∀ s a, f s = some a → g s = mk a) {elements : List Scalar} {as : List α}
    (h : elements.mapM f = some as) : elements.map g = as.map mk := by
  have related := mapM_eq_some_iff.mp h
  clear h
  induction related with
  | nil => rfl
  | cons first _ ih => rw [List.map_cons, List.map_cons, replaced _ _ first, ih]

theorem listMessage?_ints (name : String) (ns : List Int64) :
    listMessage? name (ns.map .int) =
      some { name, type := Onnx.AttributeType.ints.number, ints := ns } := by
  have read : (ns.map Scalar.int).mapM Scalar.integer? = some ns := by
    rw [mapM_eq_some_iff, List.forall₂_map_left_iff, List.forall₂_same]
    intro _ _
    exact rfl
  rw [listMessage?, if_neg (by simp [Scalar.isText]), if_neg (by simp [Scalar.isFloat]), read]
  rfl

theorem listMessage?_floats (name : String) {xs : List Binary32} (nonempty : xs ≠ []) :
    listMessage? name (xs.map fun x => .float x.widen) =
      some
        { name
          type := Onnx.AttributeType.floats.number
          floats := xs.map fun x => x.widen.narrow } := by
  have read : (xs.map fun x : Binary32 => Scalar.float x.widen).mapM Scalar.single? =
      some (xs.map fun x => x.widen.narrow) := by
    rw [mapM_eq_some_iff, List.forall₂_map_left_iff, List.forall₂_map_right_iff, List.forall₂_same]
    intro _ _
    exact rfl
  obtain ⟨x, member⟩ := List.exists_mem_of_ne_nil xs nonempty
  have some_float : (xs.map fun x : Binary32 => Scalar.float x.widen).any Scalar.isFloat = true :=
    List.any_eq_true.mpr ⟨_, List.mem_map_of_mem member, rfl⟩
  rw [listMessage?, if_neg (by simp [Scalar.isText]), if_pos some_float, read]
  rfl

theorem listMessage?_texts (name : String) {ss : List String} (nonempty : ss ≠ []) :
    listMessage? name (ss.map .text) =
      some
        { name
          type := Onnx.AttributeType.strings.number
          strings := ss.map Text.utf8 } := by
  have read : (ss.map Scalar.text).mapM Scalar.utf8? = some (ss.map Text.utf8) := by
    rw [mapM_eq_some_iff, List.forall₂_map_left_iff, List.forall₂_map_right_iff, List.forall₂_same]
    intro _ _
    exact rfl
  obtain ⟨s, member⟩ := List.exists_mem_of_ne_nil ss nonempty
  have some_text : (ss.map Scalar.text).any Scalar.isText = true :=
    List.any_eq_true.mpr ⟨_, List.mem_map_of_mem member, rfl⟩
  rw [listMessage?, if_pos some_text, read]
  rfl

theorem list_settles {name : String} {elements : List Scalar} {a : Onnx.Attribute}
    (h : listMessage? name elements = some a) :
    Settles name a.dropZeroSign (.list (canonicalList elements)) := by
  unfold listMessage? at h
  split at h
  · rename_i some_text
    obtain ⟨strings, read, rfl⟩ := Option.map_eq_some_iff.mp h
    obtain ⟨ss, rfl, rfl⟩ := texts_of_utf8? read
    have nonempty : ss ≠ [] := by
      rintro rfl
      cases some_text
    rw [canonicalList, if_pos some_text]
    refine listSettles ⟨rfl, rfl⟩ rfl ?_ (listMessage?_texts name nonempty)
    simp only [Value.ofMessage, ofNumber?_number, readTexts]
    rfl
  · rename_i no_text
    split at h
    · rename_i some_float
      obtain ⟨floats, read, rfl⟩ := Option.map_eq_some_iff.mp h
      have replaced := map_of_mapM (fun s x => And.left ∘ asFloat_of_single?) read
      have nonempty : floats ≠ [] := by
        rintro rfl
        rw [List.map_nil, List.map_eq_nil_iff] at replaced
        rw [replaced] at some_float
        cases some_float
      have again : floats.map (fun x => x.widen.narrow) = floats := by
        refine (List.map_congr_left fun x member => ?_).trans floats.map_id
        obtain ⟨s, _, single⟩ := mem_of_mapM read member
        exact (asFloat_of_single? single).2
      rw [canonicalList, if_neg no_text, if_pos some_float, replaced]
      refine listSettles ⟨rfl, rfl⟩ rfl ?_ ?_
      · simp only [Value.ofMessage, ofNumber?_number]
      · rw [listMessage?_floats name nonempty, again]
    · rename_i no_float
      obtain ⟨ints, read, rfl⟩ := Option.map_eq_some_iff.mp h
      rw [canonicalList, if_neg no_text, if_neg no_float,
        map_of_mapM (fun s n => asInteger_of_integer?) read]
      refine listSettles ⟨rfl, rfl⟩ rfl ?_ (listMessage?_ints name ints)
      simp only [Value.ofMessage, ofNumber?_number]
      rfl

theorem Payload.settles {name : String} {p : Payload} {a : Onnx.Attribute}
    (h : p.toMessage? name = some a) (size : (Onnx.Attribute.codec.encode a).length < 2 ^ 64) :
    Settles name a.dropZeroSign (.payload p.canonical) := by
  obtain ⟨kind, bytes⟩ := p
  cases kind with
  | tensor =>
    obtain ⟨t, read, rfl⟩ := Option.map_eq_some_iff.mp h
    have small := (Onnx.Attribute.length_encode_tensor rfl).trans_lt size
    have again := Onnx.Tensor.decode?_encode small
    rw [canonical, read, Onnx.Attribute.dropZeroSign_eq]
    refine ⟨rfl, rfl, ?_⟩
    simp only [Value.toMessage, toMessage?, Option.elim_some, again]
    rfl
  | graph =>
    obtain ⟨g, read, rfl⟩ := Option.map_eq_some_iff.mp h
    have small := (Onnx.Attribute.length_encode_graph rfl).trans_lt size
    have again := Onnx.Graph.decode?_encode (Onnx.Graph.depth_of_decode? read) small
    rw [canonical, read, Onnx.Attribute.dropZeroSign_eq]
    refine ⟨rfl, ?_, ?_⟩
    · simp only [Value.ofMessage, ofNumber?_number, Value.ofPayload, Option.map_some,
        Onnx.Graph.encode_dropZeroSign]
      rfl
    · simp only [Value.toMessage, toMessage?, Option.elim_some, again]
      rfl

theorem Value.settles {name : String} {v : Value} {a : Onnx.Attribute}
    (h : v.toMessage name = .ok a) (size : (Onnx.Attribute.codec.encode a).length < 2 ^ 64) :
    Settles name a.dropZeroSign v.canonical := by
  cases v with
  | scalar s =>
    cases h
    exact s.settles name
  | list elements =>
    cases written : listMessage? name elements with
    | none =>
      rw [toMessage, written] at h
      cases h
    | some a' =>
      rw [toMessage, written] at h
      cases h
      exact list_settles written
  | payload p =>
    cases written : p.toMessage? name with
    | none =>
      rw [toMessage, written] at h
      cases h
    | some a' =>
      rw [toMessage, written] at h
      cases h
      exact Payload.settles written size

end Attribute

open Attribute (Settles Value)

theorem optionalName_getD (name : String) : (optionalName name).getD "" = name := by
  unfold optionalName
  split
  · rename_i empty
    exact empty.symm
  · rfl

def Node.canonical (node : Node) : Node :=
  { node with
    name := optionalName (node.name.getD "")
    attributes := node.attributes.mapValues Value.canonical }

def Graph.canonical (g : Graph) : Graph :=
  { g with name := optionalName (g.name.getD ""), nodes := g.nodes.map Node.canonical }

theorem Node.toMessage_eq_ok_iff {node : Node} {n : Onnx.Node} :
    node.toMessage = .ok n ↔ ∃ attributes,
      List.Forall₂ (fun e a => Value.toMessage e.1 e.2 = .ok a) node.attributes.entries attributes ∧
      n =
        { inputs := node.inputs
          outputs := node.outputs
          name := node.name.getD ""
          opType := node.opType
          attributes
          domain := node.domain } := by
  rw [toMessage, map_except_eq_ok_iff]
  exact exists_congr fun attributes => and_congr mapM_eq_ok_iff eq_comm

theorem Node.settles {node : Node} {n : Onnx.Node} (h : node.toMessage = .ok n)
    (size : (Onnx.Node.codec.encode n).length < 2 ^ 64) :
    ofMessage n.dropZeroSign = .ok node.canonical ∧
      node.canonical.toMessage = .ok n.dropZeroSign := by
  obtain ⟨attributes, related, rfl⟩ := toMessage_eq_ok_iff.mp h
  have settled : List.Forall₂ (fun e a => Settles e.1 a.dropZeroSign e.2.canonical)
      node.attributes.entries attributes := by
    apply (forall₂_mem_right related).imp
    rintro e a ⟨written, member⟩
    exact Value.settles written ((Onnx.Node.length_encode_attribute member).trans_lt size)
  rw [Onnx.Node.dropZeroSign_eq]
  constructor
  · refine ofMessage_eq_ok_iff.mpr ⟨(node.attributes.mapValues Value.canonical).entries, ?_, ?_, ?_⟩
    · refine List.forall₂_map_left_iff.mpr (List.forall₂_map_right_iff.mpr ?_)
      exact (settled.imp fun _ _ same => ⟨same.named.symm, same.read⟩).flip
    · exact NameMap.names_nodup _
    · rw [NameMap.ofList_entries]
      rfl
  · refine toMessage_eq_ok_iff.mpr ⟨attributes.map Onnx.Attribute.dropZeroSign, ?_, ?_⟩
    · refine List.forall₂_map_left_iff.mpr (List.forall₂_map_right_iff.mpr ?_)
      exact settled.imp fun _ _ same => same.written
    · simp only [canonical, optionalName_getD]

theorem Graph.toModel_eq_ok_iff {g : Graph} {x : Onnx.Model} :
    g.toModel = .ok x ↔ ∃ nodes, List.Forall₂ (fun node n => node.toMessage = .ok n) g.nodes nodes ∧
      x =
        { graph := some
            { nodes
              name := g.name.getD ""
              inputs := g.inputs.map fun name => { name }
              outputs := g.outputs.map fun name => { name } }
          opsetImports := g.opsetImports.map fun o => ⟨o.domain, o.version⟩ } := by
  rw [toModel, map_except_eq_ok_iff]
  exact exists_congr fun nodes => and_congr mapM_eq_ok_iff eq_comm

theorem Graph.settles {g : Graph} {x : Onnx.Model} (h : g.toModel = .ok x)
    (size : (Onnx.Model.codec.encode x).length < 2 ^ 64) :
    ofModel x.dropZeroSign = .ok g.canonical ∧ g.canonical.toModel = .ok x.dropZeroSign := by
  obtain ⟨nodes, related, rfl⟩ := toModel_eq_ok_iff.mp h
  have settled : List.Forall₂ (fun (node : Node) (n : Onnx.Node) =>
      Node.ofMessage n.dropZeroSign = .ok node.canonical ∧
        node.canonical.toMessage = .ok n.dropZeroSign) g.nodes nodes := by
    apply (forall₂_mem_right related).imp
    rintro node n ⟨written, member⟩
    refine Node.settles written (Nat.lt_of_le_of_lt ?_ size)
    exact Onnx.Model.length_encode_node rfl member
  simp only [Onnx.Model.dropZeroSign, Option.map_some, Onnx.Graph.dropZeroSign_eq]
  constructor
  · have read : (nodes.map Onnx.Node.dropZeroSign).mapM Node.ofMessage =
        .ok (g.nodes.map Node.canonical) := by
      refine mapM_eq_ok_iff.mpr (List.forall₂_map_left_iff.mpr (List.forall₂_map_right_iff.mpr ?_))
      exact (settled.imp fun _ _ same => same.1).flip
    simp only [ofModel, read, List.map_map, Function.comp_def, List.map_id']
    rfl
  · refine toModel_eq_ok_iff.mpr ⟨nodes.map Onnx.Node.dropZeroSign, ?_, ?_⟩
    · refine List.forall₂_map_left_iff.mpr (List.forall₂_map_right_iff.mpr ?_)
      exact settled.imp fun _ _ same => same.2
    · simp only [canonical, optionalName_getD]

/-- What is read back from a model that does not nest too deep is the canonical form, and from then
on nothing changes any more. -/
theorem Graph.reload {g : Graph} {x : Onnx.Model} (h : g.toModel = .ok x)
    (deep : x.depth ≤ Onnx.nestingLimit)
    (size : (Onnx.Model.codec.encode x).length < 2 ^ 64) :
    ofOnnx (Onnx.Model.codec.encode x) = .ok g.canonical ∧
      g.canonical.toOnnx = .ok (Onnx.Model.codec.encode x) := by
  obtain ⟨read, written⟩ := settles h size
  constructor
  · rw [ofOnnx, Onnx.Model.decode?_encode deep size]
    exact read
  · rw [toOnnx, written, ← x.encode_dropZeroSign]
    rfl

end OperatorGraph
