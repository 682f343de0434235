import OperatorGraph.Proofs.Graph.OfModel

/-!
Which models are read, what the graph holds then, and with what fault the others are refused: that
of the first attribute, node by node, that has a name for the second time or cannot be read.
-/

namespace OperatorGraph

open Attribute (Value)
open Attribute.Value (ReadFrom)

namespace Onnx

/-- The types for which a graph has values. -/
def AttributeType.supported : List AttributeType :=
  [float, int, string, tensor, graph, floats, ints, strings]

namespace Attribute

/-- Whether the type of an attribute is supported, and what the type names can be read. -/
structure Readable (a : Attribute) : Prop where
  supported : ∃ t ∈ AttributeType.supported, a.type = t.number
  string : a.type = AttributeType.string.number → ∃ s, a.s = Text.utf8 s
  strings : a.type = AttributeType.strings.number → ∀ bytes ∈ a.strings, ∃ s, bytes = Text.utf8 s
  tensor : a.type = AttributeType.tensor.number → a.t ≠ none
  graph : a.type = AttributeType.graph.number → a.g ≠ none

/-- Why an attribute cannot be read. -/
inductive Unreadable (a : Attribute) : DecodeFault → Prop
  | unknownType (unknown : ∀ t : AttributeType, a.type ≠ t.number) :
      Unreadable a (.unknownType a.type)
  | unsupportedType {t : AttributeType} (type : a.type = t.number)
      (unsupported : t ∉ AttributeType.supported) : Unreadable a (.unsupportedType a.name t)
  | string (type : a.type = AttributeType.string.number) (invalid : ∀ s, a.s ≠ Text.utf8 s) :
      Unreadable a (.notUtf8 a.name)
  | strings (type : a.type = AttributeType.strings.number) {bytes : List UInt8}
      (member : bytes ∈ a.strings) (invalid : ∀ s, bytes ≠ Text.utf8 s) :
      Unreadable a (.notUtf8 a.name)
  | tensor (type : a.type = AttributeType.tensor.number) (absent : a.t = none) :
      Unreadable a (.missingField "attribute.t")
  | graph (type : a.type = AttributeType.graph.number) (absent : a.g = none) :
      Unreadable a (.missingField "attribute.g")

end Attribute

/-- Whether attributes have different names and can all be read. -/
structure WellFormedAttributes (as : List Attribute) : Prop where
  distinct : (as.map (·.name)).Nodup
  readable : ∀ a ∈ as, a.Readable

/-- Whether a model has a graph, with nodes that can all be read. -/
def Model.WellFormed (x : Model) : Prop :=
  ∃ graph, x.graph = some graph ∧ ∀ n ∈ graph.nodes, WellFormedAttributes n.attributes

/-- Why a node is refused for an attribute that comes after some others. A name that one of them has
counts before anything that is wrong with the value. -/
inductive Node.Refuses (n : Node) (before : List Attribute) (a : Attribute) : DecodeFault → Prop
  | repeated (taken : a.name ∈ before.map (·.name)) :
      Refuses n before a (.duplicate (if n.name = "" then n.opType else n.name) a.name)
  | unreadable (fresh : a.name ∉ before.map (·.name)) {fault : DecodeFault}
      (unreadable : a.Unreadable fault) : Refuses n before a fault

/-- Why a model is refused: for the first attribute of the first node that is not well formed. -/
inductive Model.Refused (x : Model) : DecodeFault → Prop
  | noGraph (absent : x.graph = none) : Refused x (.missingField "graph")
  | first {graph : Graph} (held : x.graph = some graph) {earlier later : List Node} {n : Node}
      (nodes : graph.nodes = earlier ++ n :: later)
      (accepted : ∀ n' ∈ earlier, WellFormedAttributes n'.attributes)
      {before after : List Attribute} {a : Attribute} (attributes : n.attributes = before ++ a :: after)
      (sound : WellFormedAttributes before) {fault : DecodeFault}
      (refuses : n.Refuses before a fault) : Refused x fault

end Onnx

namespace Attribute.Value

open Onnx (AttributeType)
open Onnx.AttributeType (ofNumber?)

variable {a : Onnx.Attribute}

theorem readText_eq_ok_iff {name s : String} {bytes : List UInt8} :
    readText name bytes = .ok s ↔ bytes = Text.utf8 s := by
  refine ⟨utf8_of_readText, ?_⟩
  rintro rfl
  rw [readText, Text.ofUtf8?_utf8]

theorem readText_eq_error_iff {name : String} {bytes : List UInt8} {fault : DecodeFault} :
    readText name bytes = .error fault ↔ (∀ s, bytes ≠ Text.utf8 s) ∧ fault = .notUtf8 name := by
  cases decoded : Text.ofUtf8? bytes with
  | some s =>
    have valid := Text.ofUtf8?_eq_some_iff.mp decoded
    simp only [readText, decoded, reduceCtorEq, false_iff, not_and]
    exact fun invalid => absurd valid (invalid s)
  | none =>
    have invalid : ∀ s, bytes ≠ Text.utf8 s := fun s valid => by
      cases decoded.symm.trans (Text.ofUtf8?_eq_some_iff.mpr valid)
    simp only [readText, decoded, Except.error.injEq]
    exact ⟨fun same => ⟨invalid, same.symm⟩, fun same => same.2.symm⟩

/-- Whichever of some texts is not valid, the fault is the same. -/
theorem readTexts_eq_error_iff {name : String} {strings : List (List UInt8)}
    {fault : DecodeFault} : strings.mapM (readText name) = .error fault ↔
      (∃ bytes ∈ strings, ∀ s, bytes ≠ Text.utf8 s) ∧ fault = .notUtf8 name := by
  constructor
  · intro h
    obtain ⟨before, bytes, after, rfl, _, fails⟩ := mapM_eq_error_iff.mp h
    obtain ⟨invalid, rfl⟩ := readText_eq_error_iff.mp fails
    exact ⟨⟨bytes, by simp, invalid⟩, rfl⟩
  · rintro ⟨⟨bytes, member, invalid⟩, rfl⟩
    cases made : strings.mapM (readText name) with
    | ok ss =>
      obtain ⟨s, _, valid⟩ := exists_of_mem_left (mapM_eq_ok_iff.mp made) member
      exact absurd (readText_eq_ok_iff.mp valid) (invalid s)
    | error fault =>
      obtain ⟨_, _, _, _, _, fails⟩ := mapM_eq_error_iff.mp made
      rw [(readText_eq_error_iff.mp fails).2]

theorem ofMessage_of_readFrom {v : Value} (h : ReadFrom a v) : ofMessage a = .ok v := by
  cases h with
  | float type => rw [ofMessage, type]
  | int type => rw [ofMessage, type]
  | text type valid =>
    rw [ofMessage, type]
    exact map_except_eq_ok_iff.mpr ⟨_, readText_eq_ok_iff.mpr valid, rfl⟩
  | floats type => rw [ofMessage, type]
  | ints type => rw [ofMessage, type]
  | texts type valid =>
    rw [ofMessage, type, valid]
    exact map_except_eq_ok_iff.mpr ⟨_, readTexts _ _, rfl⟩
  | tensor type held => rw [ofMessage, type, held, ofPayload]
  | graph type held => rw [ofMessage, type, held, ofPayload]

theorem ofMessage_eq_ok_iff {v : Value} : ofMessage a = .ok v ↔ ReadFrom a v :=
  ⟨readFrom_of_ofMessage, ofMessage_of_readFrom⟩

theorem unreadable_of_ofMessage {fault : DecodeFault} (h : ofMessage a = .error fault) :
    a.Unreadable fault := by
  unfold ofMessage at h
  -- the types in the order in which they are tried, and last those that are left over
  split at h
  · rename_i none
    cases h
    refine .unknownType fun t same => ?_
    cases none.symm.trans (ofNumber?_eq_some_iff.mpr same)
  · cases h
  · cases h
  · rename_i type
    obtain ⟨invalid, rfl⟩ := readText_eq_error_iff.mp (map_except_eq_error_iff.mp h)
    exact .string (ofNumber?_eq_some_iff.mp type) invalid
  · cases h
  · cases h
  · rename_i type
    obtain ⟨⟨bytes, member, invalid⟩, rfl⟩ :=
      readTexts_eq_error_iff.mp (map_except_eq_error_iff.mp h)
    exact .strings (ofNumber?_eq_some_iff.mp type) member invalid
  · rename_i type
    cases held : a.t with
    | some t =>
      rw [held] at h
      cases h
    | none =>
      rw [held] at h
      cases h
      exact .tensor (ofNumber?_eq_some_iff.mp type) held
  · rename_i type
    cases held : a.g with
    | some g =>
      rw [held] at h
      cases h
    | none =>
      rw [held] at h
      cases h
      exact .graph (ofNumber?_eq_some_iff.mp type) held
  · rename_i t _ _ _ _ _ _ _ _ type
    cases h
    refine .unsupportedType (ofNumber?_eq_some_iff.mp type) fun supported => ?_
    simp only [AttributeType.supported, List.mem_cons, List.not_mem_nil] at supported
    tauto

theorem ofMessage_of_unreadable {fault : DecodeFault} (h : a.Unreadable fault) :
    ofMessage a = .error fault := by
  cases h with
  | unknownType unknown =>
    have none : ofNumber? a.type = none := by
      cases found : ofNumber? a.type with
      | none => rfl
      | some t => exact absurd (ofNumber?_eq_some_iff.mp found) (unknown t)
    rw [ofMessage, none]
  | @unsupportedType t type unsupported =>
    rw [ofMessage, ofNumber?_eq_some_iff.mpr type]
    cases t <;> first | rfl | exact absurd (by decide) unsupported
  | string type invalid =>
    rw [ofMessage, ofNumber?_eq_some_iff.mpr type]
    exact map_except_eq_error_iff.mpr (readText_eq_error_iff.mpr ⟨invalid, rfl⟩)
  | strings type member invalid =>
    rw [ofMessage, ofNumber?_eq_some_iff.mpr type]
    exact map_except_eq_error_iff.mpr (readTexts_eq_error_iff.mpr ⟨⟨_, member, invalid⟩, rfl⟩)
  | tensor type absent => rw [ofMessage, ofNumber?_eq_some_iff.mpr type, absent, ofPayload]
  | graph type absent => rw [ofMessage, ofNumber?_eq_some_iff.mpr type, absent, ofPayload]

theorem ofMessage_eq_error_iff {fault : DecodeFault} :
    ofMessage a = .error fault ↔ a.Unreadable fault :=
  ⟨unreadable_of_ofMessage, ofMessage_of_unreadable⟩

end Attribute.Value

namespace Onnx

theorem AttributeType.number_injective {t t' : AttributeType} (h : t.number = t'.number) :
    t = t' := by
  have found := Attribute.ofNumber?_number t
  rw [h, Attribute.ofNumber?_number] at found
  exact (Option.some.inj found).symm

theorem Attribute.readable_iff_not_unreadable {a : Attribute} :
    a.Readable ↔ ∀ fault, ¬ a.Unreadable fault := by
  constructor
  · intro readable fault unreadable
    cases unreadable with
    | unknownType unknown =>
      obtain ⟨t, _, type⟩ := readable.supported
      exact unknown t type
    | unsupportedType type unsupported =>
      obtain ⟨t, supported, type'⟩ := readable.supported
      cases AttributeType.number_injective (type.symm.trans type')
      exact unsupported supported
    | string type invalid =>
      obtain ⟨s, valid⟩ := readable.string type
      exact invalid s valid
    | strings type member invalid =>
      obtain ⟨s, valid⟩ := readable.strings type _ member
      exact invalid s valid
    | tensor type absent => exact readable.tensor type absent
    | graph type absent => exact readable.graph type absent
  · intro faultless
    constructor
    case supported =>
      by_contra none
      by_cases known : ∃ t : AttributeType, a.type = t.number
      · obtain ⟨t, type⟩ := known
        exact faultless _ (.unsupportedType type fun supported => none ⟨t, supported, type⟩)
      · exact faultless _ (.unknownType (not_exists.mp known))
    case string =>
      intro type
      by_contra invalid
      exact faultless _ (.string type (not_exists.mp invalid))
    case strings =>
      intro type bytes member
      by_contra invalid
      exact faultless _ (.strings type member (not_exists.mp invalid))
    case tensor =>
      intro type absent
      exact faultless _ (.tensor type absent)
    case graph =>
      intro type absent
      exact faultless _ (.graph type absent)

theorem Attribute.readable_iff {a : Attribute} :
    a.Readable ↔ ∃ v, OperatorGraph.Attribute.Value.ofMessage a = .ok v := by
  rw [readable_iff_not_unreadable]
  cases read : OperatorGraph.Attribute.Value.ofMessage a with
  | ok v =>
    refine iff_of_true (fun fault unreadable => ?_) ⟨v, rfl⟩
    cases read.symm.trans (Value.ofMessage_of_unreadable unreadable)
  | error fault =>
    refine iff_of_false (fun faultless => ?_) nofun
    exact faultless fault (Value.unreadable_of_ofMessage read)

end Onnx

open Onnx (WellFormedAttributes)

namespace Node

variable {n : Onnx.Node} {node : Node} {as : List Onnx.Attribute}

/-- Whether a node has all of a message: its fields, and for each attribute one entry, with its name
and the only value that is read from it. -/
structure Mirrors (node : Node) (n : Onnx.Node) : Prop where
  opType : node.opType = n.opType
  name : node.name = optionalName n.name
  domain : node.domain = n.domain
  inputs : node.inputs = n.inputs
  outputs : node.outputs = n.outputs
  attributes : ∃ entries, node.attributes.entries.Perm entries ∧
    List.Forall₂ (fun a e => e.1 = a.name ∧ ∀ v, ReadFrom a v ↔ v = e.2) n.attributes entries

theorem names_of_entriesOf {entries : List (String × Value)} (related : EntriesOf as entries) :
    entries.map Prod.fst = as.map (·.name) := by
  induction related with
  | nil => rfl
  | cons first _ ih => rw [List.map_cons, List.map_cons, first.1, ih]

theorem entriesOf_iff {entries : List (String × Value)} : EntriesOf as entries ↔
    List.Forall₂ (fun a e => e.1 = a.name ∧ ∀ v, ReadFrom a v ↔ v = e.2) as entries := by
  refine forall₂_congr_left fun a _ e => and_congr_right fun _ => ?_
  simp only [← Value.ofMessage_eq_ok_iff]
  constructor
  · intro read v
    rw [read, Except.ok.injEq, eq_comm]
  · intro only
    exact (only e.2).mpr rfl

theorem ofMessage_eq_ok_iff_mirrors : ofMessage n = .ok node ↔ node.Mirrors n := by
  rw [ofMessage_eq_ok_iff]
  constructor
  · rintro ⟨entries, related, distinct, rfl⟩
    exact ⟨rfl, rfl, rfl, rfl, rfl, entries, NameMap.ofList_perm distinct,
      entriesOf_iff.mp related⟩
  · rintro ⟨opType, name, domain, inputs, outputs, entries, perm, related⟩
    refine ⟨entries, entriesOf_iff.mpr related, ?_, ?_⟩
    · exact (perm.map Prod.fst).nodup_iff.mp node.attributes.names_nodup
    · rw [NameMap.ofList_of_perm perm, ← opType, ← name, ← domain, ← inputs, ← outputs]

theorem exists_ofMessage_iff : (∃ node, ofMessage n = .ok node) ↔
    WellFormedAttributes n.attributes := by
  constructor
  · rintro ⟨node, read⟩
    obtain ⟨entries, related, distinct, _⟩ := ofMessage_eq_ok_iff.mp read
    refine ⟨names_of_entriesOf related ▸ distinct, fun a member => ?_⟩
    obtain ⟨e, _, _, value⟩ := exists_of_mem_left related member
    exact Onnx.Attribute.readable_iff.mpr ⟨e.2, value⟩
  · rintro ⟨distinct, readable⟩
    have each : ∀ a ∈ n.attributes, ∃ e : String × Value,
        e.1 = a.name ∧ Value.ofMessage a = .ok e.2 := by
      intro a member
      obtain ⟨v, value⟩ := Onnx.Attribute.readable_iff.mp (readable a member)
      exact ⟨(a.name, v), rfl, value⟩
    obtain ⟨entries, related⟩ := exists_forall₂ each
    exact ⟨_, ofMessage_eq_ok_iff.mpr ⟨entries, related, names_of_entriesOf related ▸ distinct, rfl⟩⟩

theorem addAttribute_eq_error_iff {a : Onnx.Attribute} {fault : DecodeFault} :
    node.addAttribute a = .error fault ↔
      node.attributes.contains a.name = true ∧ fault = .duplicate node.displayName a.name ∨
        node.attributes.contains a.name = false ∧ Value.ofMessage a = .error fault := by
  unfold addAttribute
  split
  · rename_i present
    simp [present, eq_comm]
  · rename_i absent
    rw [map_except_eq_error_iff]
    simp [absent]

/-- What an attribute is refused for depends on the attributes that have been read before it. -/
theorem refuses_iff {before : List Onnx.Attribute} {a : Onnx.Attribute} {fault : DecodeFault}
    (read : ofMessage { n with attributes := before } = .ok node) :
    node.addAttribute a = .error fault ↔ n.Refuses before a fault := by
  obtain ⟨entries, related, distinct, rfl⟩ := ofMessage_eq_ok_iff.mp read
  have taken : (NameMap.ofList entries).contains a.name = true ↔
      a.name ∈ before.map (·.name) := by
    rw [NameMap.contains_eq_true_iff, NameMap.names,
      ((NameMap.ofList_perm distinct).map Prod.fst).mem_iff, names_of_entriesOf related]
  have called : (optionalName n.name).getD n.opType =
      if n.name = "" then n.opType else n.name := by
    unfold optionalName
    split <;> rfl
  rw [addAttribute_eq_error_iff, ← Bool.not_eq_true, taken, displayName, called,
    Value.ofMessage_eq_error_iff]
  constructor
  · rintro (⟨again, rfl⟩ | ⟨fresh, unreadable⟩)
    · exact .repeated again
    · exact .unreadable fresh unreadable
  · intro refuses
    cases refuses with
    | repeated again => exact .inl ⟨again, rfl⟩
    | unreadable fresh unreadable => exact .inr ⟨fresh, unreadable⟩

theorem ofMessage_eq_error_iff {fault : DecodeFault} : ofMessage n = .error fault ↔
    ∃ before a after, n.attributes = before ++ a :: after ∧ WellFormedAttributes before ∧
      n.Refuses before a fault := by
  rw [ofMessage, foldlM_eq_error_iff]
  refine exists_congr fun before => exists_congr fun a => exists_congr fun after => ?_
  -- the attributes so far are those of a node of their own
  constructor
  · rintro ⟨reached, split, run, fails⟩
    have read : ofMessage { n with attributes := before } = .ok reached := run
    exact ⟨split, exists_ofMessage_iff.mp ⟨reached, read⟩, (refuses_iff read).mp fails⟩
  · rintro ⟨split, sound, refuses⟩
    have read : ∃ reached, ofMessage { n with attributes := before } = .ok reached :=
      exists_ofMessage_iff.mpr sound
    obtain ⟨reached, read⟩ := read
    exact ⟨reached, split, read, (refuses_iff read).mpr refuses⟩

end Node

namespace Graph

variable {x : Onnx.Model} {g : Graph}

/-- Whether a graph has all of a model: the names and operator sets, and the nodes in their order. -/
structure Mirrors (g : Graph) (x : Onnx.Model) : Prop where
  opsetImports : g.opsetImports = x.opsetImports.map fun o => ⟨o.domain, o.version⟩
  graph : ∃ graph, x.graph = some graph ∧ g.name = optionalName graph.name ∧
    g.inputs = graph.inputs.map (·.name) ∧ g.outputs = graph.outputs.map (·.name) ∧
    List.Forall₂ (fun n node => node.Mirrors n) graph.nodes g.nodes

theorem exists_ofModel_iff : (∃ g, ofModel x = .ok g) ↔ x.WellFormed := by
  unfold ofModel Onnx.Model.WellFormed
  cases x.graph with
  | none => simp
  | some graph =>
    simp only [exists_map_except_eq_ok_iff, exists_mapM_eq_ok_iff, Node.exists_ofMessage_iff,
      Option.some.injEq, exists_eq_left']

theorem ofModel_eq_ok_iff_mirrors : ofModel x = .ok g ↔ g.Mirrors x := by
  rw [ofModel_eq_ok_iff]
  simp only [Node.ofMessage_eq_ok_iff_mirrors]
  constructor
  · rintro ⟨graph, held, nodes, related, rfl⟩
    exact ⟨rfl, graph, held, rfl, rfl, rfl, related⟩
  · rintro ⟨opsets, graph, held, name, inputs, outputs, related⟩
    refine ⟨graph, held, g.nodes, related, ?_⟩
    rw [← opsets, ← name, ← inputs, ← outputs]

theorem ofModel_eq_error_iff {fault : DecodeFault} :
    ofModel x = .error fault ↔ x.Refused fault := by
  constructor
  · intro h
    unfold ofModel at h
    split at h
    · rename_i absent
      cases h
      exact .noGraph absent
    · rename_i graph held
      obtain ⟨earlier, n, later, nodes, accepted, fails⟩ :=
        mapM_eq_error_iff.mp (map_except_eq_error_iff.mp h)
      obtain ⟨before, a, after, attributes, sound, refuses⟩ := Node.ofMessage_eq_error_iff.mp fails
      exact .first held nodes (fun n' member => Node.exists_ofMessage_iff.mp (accepted n' member))
        attributes sound refuses
  · intro h
    cases h with
    | noGraph absent => rw [ofModel, absent]
    | first held nodes accepted attributes sound refuses =>
      rw [ofModel, held]
      refine map_except_eq_error_iff.mpr (mapM_eq_error_iff.mpr ⟨_, _, _, nodes, ?_, ?_⟩)
      · exact fun n' member => Node.exists_ofMessage_iff.mpr (accepted n' member)
      · exact Node.ofMessage_eq_error_iff.mpr ⟨_, _, _, attributes, sound, refuses⟩

/-- A model is read exactly if it is well formed, and then as the graph that has all of it; every
other one is refused for its first attribute that is not in order. -/
theorem ofModel_accepts (x : Onnx.Model) :
    ((∃ g, ofModel x = .ok g) ↔ x.WellFormed) ∧
      (∀ g, ofModel x = .ok g ↔ g.Mirrors x) ∧
      ∀ fault, ofModel x = .error fault ↔ x.Refused fault :=
  ⟨exists_ofModel_iff, fun _ => ofModel_eq_ok_iff_mirrors, fun _ => ofModel_eq_error_iff⟩

/-- The repeated name counts, although the second value has no known type. -/
example :
    let attributes : List Onnx.Attribute := [{ name := "k", type := 2 }, { name := "k", type := 99 }]
    ofModel { graph := some { nodes := [{ opType := "TopK", attributes }] } } =
      .error (.duplicate "TopK" "k") :=
  rfl

end Graph

end OperatorGraph
