import OperatorGraph.Proofs.Graph.Portable

/-!
What is written for a graph takes no more than the model from which the graph was read. Attributes
are written in another order, and without what their types do not name.
-/

namespace OperatorGraph

open Wire

namespace Onnx

/-- Whether an attribute holds, in each of its fields, what another one holds there or nothing. -/
structure Attribute.PartOf (a' a : Attribute) : Prop where
  name : a'.name = a.name
  f : a.f.isZero = true → a'.f.isZero = true := by exact fun _ => rfl
  i : a'.i = 0 ∨ a'.i = a.i := by exact .inl rfl
  s : a'.s = [] ∨ a'.s = a.s := by exact .inl rfl
  t : a'.t = none ∨ a'.t = a.t := by exact .inl rfl
  g : a'.g = none ∨ a'.g.toList.map Graph.codec.encode = a.g.toList.map Graph.codec.encode := by
    exact .inl rfl
  floats : a'.floats = [] ∨ a'.floats.length = a.floats.length := by exact .inl rfl
  ints : a'.ints = [] ∨ a'.ints = a.ints := by exact .inl rfl
  strings : a'.strings = [] ∨ a'.strings = a.strings := by exact .inl rfl
  docString : a'.docString = "" ∨ a'.docString = a.docString := by exact .inl rfl
  type : (Field.int32 20 a'.type).weight ≤ (Field.int32 20 a.type).weight

theorem weight_field_le {α : Type} {unset value' value : α} (field : α → Message)
    (h : value' = unset ∨ value' = value) (omitted : (field unset).weight = 0) :
    (field value').weight ≤ (field value).weight := by
  rcases h with rfl | rfl
  · omega
  · exact le_rfl

theorem Attribute.PartOf.weight_le {a' a : Attribute} (h : a'.PartOf a) :
    (codec.toMessage a').weight ≤ (codec.toMessage a).weight := by
  have f : (Field.float 2 (bits32 a'.f) a'.f.isZero).weight ≤
      (Field.float 2 (bits32 a.f) a.f.isZero).weight := by
    cases zero : a.f.isZero with
    | true => rw [h.f zero]; exact Nat.zero_le _
    | false =>
      rw [show Field.float 2 (bits32 a.f) false = [⟨2, .fixed32 (bits32 a.f)⟩] from rfl,
        Message.weight_single]
      cases a'.f.isZero with
      | true => exact Nat.zero_le _
      | false => exact (Message.weight_single 2 (.fixed32 (bits32 a'.f))).le
  have floats : (Field.floats 7 (a'.floats.map bits32)).weight ≤
      (Field.floats 7 (a.floats.map bits32)).weight := by
    rcases h.floats with none | same
    · rw [none]
      exact Nat.zero_le _
    · exact (Field.weight_floats_of_length (by simp [same]) 7).le
  have i := weight_field_le (Field.int64 3) h.i rfl
  have s := weight_field_le (Field.bytes 4) h.s rfl
  have t := weight_field_le (fun t => Field.eachBytes 5 (t.toList.map Tensor.codec.encode)) h.t rfl
  have g : (Field.eachBytes 6 (a'.g.toList.map Graph.codec.encode)).weight ≤
      (Field.eachBytes 6 (a.g.toList.map Graph.codec.encode)).weight := by
    rcases h.g with none | same
    · rw [none]
      exact Nat.zero_le _
    · rw [same]
  have ints := weight_field_le (Field.int64s 8) h.ints rfl
  have strings := weight_field_le (Field.eachBytes 9) h.strings rfl
  have docString := weight_field_le (Field.text 13) h.docString rfl
  have type := h.type
  simp only [codec, toMessage_eq, Message.weight_append, h.name] at *
  omega

end Onnx

namespace Attribute

theorem weight_type_le {n : Int32} {t t' : Onnx.AttributeType}
    (h : Onnx.AttributeType.ofNumber? n = some t)
    (shorter : (Field.int32 20 t'.number).weight ≤ (Field.int32 20 t.number).weight) :
    (Field.int32 20 t'.number).weight ≤ (Field.int32 20 n).weight :=
  number_of_ofNumber? h ▸ shorter

/-- What is written for a value that has been read is a part of what it was read from. Only an empty
list gets another type. -/
theorem Value.partOf {a a' : Onnx.Attribute} {v : Value} (read : ofMessage a = .ok v)
    (written : v.toMessage a.name = .ok a')
    (deep : a.depth ≤ payloadLevels + 1) (size : (Onnx.Attribute.codec.encode a).length < 2 ^ 64) :
    a'.PartOf a := by
  have portable := portable_of_ofMessage read deep size
  cases readFrom_of_ofMessage read with
  | float type =>
    cases written
    refine { name := rfl, f := fun zero => ?_, type := weight_type_le type le_rfl }
    exact Binary.Number.isZero_convert (by decide) (Binary.Number.isZero_convert (by decide) zero)
  | int type =>
    cases written
    exact { name := rfl, i := .inr rfl, type := weight_type_le type le_rfl }
  | text type valid =>
    cases written
    exact { name := rfl, s := .inr valid.symm, type := weight_type_le type le_rfl }
  | floats type =>
    by_cases empty : a.floats = []
    · rw [empty] at written
      cases written
      exact { name := rfl, type := weight_type_le type (by decide) }
    · rw [toMessage, listMessage?_floats a.name empty] at written
      cases written
      exact { name := rfl, floats := .inr (by simp), type := weight_type_le type le_rfl }
  | ints type =>
    rw [ints, toMessage, listMessage?_ints] at written
    cases written
    exact { name := rfl, ints := .inr rfl, type := weight_type_le type le_rfl }
  | @texts type ss valid =>
    by_cases empty : ss = []
    · rw [empty] at written
      cases written
      exact { name := rfl, type := weight_type_le type (by decide) }
    · rw [toMessage, listMessage?_texts a.name empty] at written
      cases written
      exact { name := rfl, strings := .inr valid.symm, type := weight_type_le type le_rfl }
  | tensor type held =>
    have back := Onnx.Tensor.decode?_encode portable.1
    simp only [toMessage, Payload.toMessage?, back] at written
    cases written
    exact { name := rfl, t := .inr held.symm, type := weight_type_le type le_rfl }
  | @graph type g held =>
    have room := (Onnx.Attribute.depth_le_iff.mp deep).2 g held
    have back := Onnx.Graph.decode?_encode
      ((Nat.le_of_succ_le_succ room).trans (by decide)) portable.1
    simp only [toMessage, Payload.toMessage?, back] at written
    cases written
    refine { name := rfl, g := .inr ?_, type := weight_type_le type le_rfl }
    rw [held]
    exact congrArg (fun bytes => [bytes]) g.encode_dropZeroSign

end Attribute

open Attribute (Value payloadLevels)

theorem Node.weight_le {n n' : Onnx.Node} {node : Node} (read : ofMessage n = .ok node)
    (written : node.toMessage = .ok n') (deep : n.depth ≤ payloadLevels + 2)
    (size : (Onnx.Node.codec.encode n).length < 2 ^ 64) :
    (Onnx.Node.codec.toMessage n').weight ≤ (Onnx.Node.codec.toMessage n).weight := by
  obtain ⟨entries, related, distinct, rfl⟩ := ofMessage_eq_ok_iff.mp read
  obtain ⟨sorted, made, rfl⟩ := toMessage_eq_ok_iff.mp written
  obtain ⟨attributes, made, perm⟩ :=
    List.perm_comp_forall₂ (NameMap.ofList_perm distinct).symm made
  have shorter : List.Forall₂
      (fun (a' a : Onnx.Attribute) => (Onnx.Attribute.codec.encode a').length ≤
        (Onnx.Attribute.codec.encode a).length) attributes n.attributes := by
    apply forall₂_trans made.flip (forall₂_mem_right related.flip)
    intro a' e a w r
    obtain ⟨⟨named, read⟩, member⟩ := r
    have inside := (Onnx.Node.length_encode_attribute member).trans_lt size
    refine Onnx.Attribute.codec_wellFormed.length_encode_le inside ?_
    have room := Onnx.Node.depth_le_iff.mp deep a member
    exact (Value.partOf read (named ▸ w) (Nat.le_of_succ_le_succ room) inside).weight_le
  have fewer := Field.weight_eachBytes_mono
    (List.forall₂_map_left_iff.mpr (List.forall₂_map_right_iff.mpr shorter)) 5
  have reordered := Field.weight_eachBytes_perm (perm.map Onnx.Attribute.codec.encode) 5
  have name : (optionalName n.name).getD "" = n.name := optionalName_getD n.name
  simp only [Onnx.Node.codec, Onnx.Node.toMessage_eq, Message.weight_append, name] at *
  have : (Field.text 6 "").weight = 0 := rfl
  omega

theorem valueInfos_weight_le {infos : List Onnx.ValueInfo} (number : Nat)
    (size : ∀ v ∈ infos, (Onnx.ValueInfo.codec.encode v).length < 2 ^ 64) :
    (Field.eachBytes number ((infos.map fun v => { name := v.name }).map
      Onnx.ValueInfo.codec.encode)).weight ≤
      (Field.eachBytes number (infos.map Onnx.ValueInfo.codec.encode)).weight := by
  refine Field.weight_eachBytes_mono ?_ number
  simp only [List.forall₂_map_left_iff, List.forall₂_map_right_iff, List.forall₂_same]
  intro v member
  refine Onnx.ValueInfo.codec_wellFormed.length_encode_le (size v member) ?_
  simp only [Onnx.ValueInfo.codec, Onnx.ValueInfo.toMessage, Message.weight_append]
  have : (Field.text 3 "").weight = 0 := rfl
  omega

/-- Of a graph's message the initializers are dropped, and of its inputs and outputs all but the
names. -/
theorem graphMessage_length_le {graph : Onnx.Graph} {nodes : List Onnx.Node}
    (shorter : List.Forall₂ (fun (n' n : Onnx.Node) =>
      (Onnx.Node.codec.encode n').length ≤ (Onnx.Node.codec.encode n).length) nodes graph.nodes)
    (size : (Onnx.Graph.codec.encode graph).length < 2 ^ 64) :
    (Onnx.Graph.codec.encode
        { nodes
          name := graph.name
          inputs := graph.inputs.map fun v => { name := v.name }
          outputs := graph.outputs.map fun v => { name := v.name } }).length ≤
      (Onnx.Graph.codec.encode graph).length := by
  refine Onnx.Graph.codec_wellFormed.length_encode_le size ?_
  have nodesFit := Field.weight_eachBytes_mono
    (List.forall₂_map_left_iff.mpr (List.forall₂_map_right_iff.mpr shorter)) 1
  have inputsFit := valueInfos_weight_le 11 fun v member =>
    (Onnx.Graph.length_encode_input member).trans_lt size
  have outputsFit := valueInfos_weight_le 12 fun v member =>
    (Onnx.Graph.length_encode_output member).trans_lt size
  simp only [Onnx.Graph.codec, Onnx.Graph.toMessage_eq, Message.weight_append, List.map_nil]
  have : (Field.text 10 "").weight = 0 := rfl
  have : (Field.eachBytes 5 []).weight = 0 := rfl
  omega

theorem Graph.weight_le {x x' : Onnx.Model} {g : Graph} (read : ofModel x = .ok g)
    (written : g.toModel = .ok x') (deep : x.depth ≤ Onnx.nestingLimit)
    (size : (Onnx.Model.codec.encode x).length < 2 ^ 64) :
    (Onnx.Model.codec.toMessage x').weight ≤ (Onnx.Model.codec.toMessage x).weight := by
  obtain ⟨graph, holds, nodes, related, rfl⟩ := ofModel_eq_ok_iff.mp read
  obtain ⟨nodes', made, rfl⟩ := toModel_eq_ok_iff.mp written
  have inside := (Onnx.Model.length_encode_graph holds).trans_lt size
  have shorter : List.Forall₂
      (fun (n' n : Onnx.Node) => (Onnx.Node.codec.encode n').length ≤
        (Onnx.Node.codec.encode n).length) nodes' graph.nodes := by
    apply forall₂_trans made.flip (forall₂_mem_right related.flip)
    intro n' node n w r
    obtain ⟨read, member⟩ := r
    have inside := (Onnx.Graph.length_encode_node member).trans_lt inside
    refine Onnx.Node.codec_wellFormed.length_encode_le inside ?_
    have room := (Onnx.Model.depth_le_iff.mp deep).1 graph holds
    have nested := (Onnx.Graph.depth_le_iff.mp (Nat.le_of_succ_le_succ room)).1 n member
    exact Node.weight_le read w (Nat.le_of_succ_le_succ nested) inside
  have graphFits := Field.weight_eachBytes_mono
    (.cons (graphMessage_length_le shorter inside) .nil) 7
  simp only [Onnx.Model.codec, Onnx.Model.toMessage_eq, Message.weight_append, holds,
    Option.toList_some, List.map_singleton, List.map_map, Function.comp_def, optionalName_getD]
  have opsets : x.opsetImports.map (fun o => Onnx.OpsetId.codec.encode ⟨o.domain, o.version⟩) =
      x.opsetImports.map Onnx.OpsetId.codec.encode := rfl
  rw [opsets]
  -- None of the other fields of a model is written.
  have : (Field.int64 1 0).weight = 0 := rfl
  have : (Field.text 2 "").weight = 0 := rfl
  have : (Field.text 3 "").weight = 0 := rfl
  have : (Field.text 4 "").weight = 0 := rfl
  have : (Field.int64 5 0).weight = 0 := rfl
  have : (Field.text 6 "").weight = 0 := rfl
  omega

end OperatorGraph
