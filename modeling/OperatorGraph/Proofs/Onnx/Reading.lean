import OperatorGraph.Onnx.Codec
import OperatorGraph.Proofs.Wire.Field

/-!
What it means that a message has been read as a value: every field on its own, whatever the other
fields hold. Nested messages are read in the same way with one level less.
-/

namespace OperatorGraph.Onnx

open Wire

structure OpsetId.ReadFrom (m : Message) (o : OpsetId) : Prop where
  domain : m.text? 1 = some o.domain
  version : m.int64? 2 = some o.version

structure ValueInfo.ReadFrom (m : Message) (v : ValueInfo) : Prop where
  name : m.text? 1 = some v.name
  docString : m.text? 3 = some v.docString

structure Tensor.ReadFrom (m : Message) (t : Tensor) : Prop where
  dims : m.int64s? 1 = some t.dims
  dataType : m.int32? 2 = some t.dataType
  name : m.text? 8 = some t.name
  rawData : m.bytes? 9 = some t.rawData

structure Attribute.ReadFrom (levels : Nat) (m : Message) (a : Attribute) : Prop where
  name : m.text? 1 = some a.name
  f : (m.fixed32? 2).map binary32 = some a.f
  i : m.int64? 3 = some a.i
  s : m.bytes? 4 = some a.s
  t : (m.eachBytes? 5).bind (oneNested Tensor.numbers Tensor.ofMessage? levels) = some a.t
  g : (m.eachBytes? 6).bind
    (oneNested Graph.numbers (Graph.ofMessage? (levels - 1)) levels) = some a.g
  floats : (m.fixed32s? 7).map (·.map binary32) = some a.floats
  ints : m.int64s? 8 = some a.ints
  strings : m.eachBytes? 9 = some a.strings
  docString : m.text? 13 = some a.docString
  type : m.int32? 20 = some a.type

structure Node.ReadFrom (levels : Nat) (m : Message) (n : Node) : Prop where
  inputs : m.texts? 1 = some n.inputs
  outputs : m.texts? 2 = some n.outputs
  name : m.text? 3 = some n.name
  opType : m.text? 4 = some n.opType
  attributes : (m.eachBytes? 5).bind
    (eachNested Attribute.numbers (Attribute.ofMessage? (levels - 1)) levels) = some n.attributes
  docString : m.text? 6 = some n.docString
  domain : m.text? 7 = some n.domain

structure Graph.ReadFrom (levels : Nat) (m : Message) (g : Graph) : Prop where
  nodes : (m.eachBytes? 1).bind
    (eachNested Node.numbers (Node.ofMessage? (levels - 1)) levels) = some g.nodes
  name : m.text? 2 = some g.name
  initializers : (m.eachBytes? 5).bind
    (eachNested Tensor.numbers Tensor.ofMessage? levels) = some g.initializers
  docString : m.text? 10 = some g.docString
  inputs : (m.eachBytes? 11).bind
    (eachNested ValueInfo.numbers ValueInfo.ofMessage? levels) = some g.inputs
  outputs : (m.eachBytes? 12).bind
    (eachNested ValueInfo.numbers ValueInfo.ofMessage? levels) = some g.outputs

structure Model.ReadFrom (levels : Nat) (m : Message) (x : Model) : Prop where
  irVersion : m.int64? 1 = some x.irVersion
  producerName : m.text? 2 = some x.producerName
  producerVersion : m.text? 3 = some x.producerVersion
  domain : m.text? 4 = some x.domain
  modelVersion : m.int64? 5 = some x.modelVersion
  docString : m.text? 6 = some x.docString
  graph : (m.eachBytes? 7).bind
    (oneNested Graph.numbers (Graph.ofMessage? (levels - 1)) levels) = some x.graph
  opsetImports : (m.eachBytes? 8).bind
    (eachNested OpsetId.numbers OpsetId.ofMessage? levels) = some x.opsetImports

theorem OpsetId.ofMessage?_eq_some_iff {m : Message} {o : OpsetId} :
    ofMessage? m = some o ↔ ReadFrom m o := by
  simp only [ofMessage?, Option.bind_eq_bind, Option.bind_eq_some_iff]
  constructor
  · rintro ⟨domain, h₁, version, h₂, eq⟩
    cases eq
    exact ⟨h₁, h₂⟩
  · rintro ⟨h₁, h₂⟩
    exact ⟨_, h₁, _, h₂, rfl⟩

theorem ValueInfo.ofMessage?_eq_some_iff {m : Message} {v : ValueInfo} :
    ofMessage? m = some v ↔ ReadFrom m v := by
  simp only [ofMessage?, Option.bind_eq_bind, Option.bind_eq_some_iff]
  constructor
  · rintro ⟨name, h₁, docString, h₂, eq⟩
    cases eq
    exact ⟨h₁, h₂⟩
  · rintro ⟨h₁, h₂⟩
    exact ⟨_, h₁, _, h₂, rfl⟩

theorem Tensor.ofMessage?_eq_some_iff {m : Message} {t : Tensor} :
    ofMessage? m = some t ↔ ReadFrom m t := by
  simp only [ofMessage?, Option.bind_eq_bind, Option.bind_eq_some_iff]
  constructor
  · rintro ⟨dims, h₁, dataType, h₂, name, h₃, rawData, h₄, eq⟩
    cases eq
    exact ⟨h₁, h₂, h₃, h₄⟩
  · rintro ⟨h₁, h₂, h₃, h₄⟩
    exact ⟨_, h₁, _, h₂, _, h₃, _, h₄, rfl⟩

theorem eachNested_spec {α : Type} {numbers : List Nat} {read : Message → Option α} {levels : Nat}
    {inputs : List (List UInt8)} {as : List α} (h : eachNested numbers read levels inputs = some as) :
    List.Forall₂ (fun input a => 0 < levels ∧
      ∃ m, readDeclared numbers (levels - 1) input = some m ∧ read m = some a) inputs as := by
  cases inputs with
  | nil =>
    cases levels <;> cases h <;> exact .nil
  | cons input rest =>
    cases levels with
    | zero => cases h
    | succ levels =>
      apply (mapM_eq_some_iff.mp h).imp
      intro input a nested
      obtain ⟨m, declared, read⟩ := Option.bind_eq_some_iff.mp nested
      exact ⟨Nat.succ_pos _, m, declared, read⟩

theorem oneNested_spec {α : Type} {numbers : List Nat} {read : Message → Option α} {levels : Nat}
    {inputs : List (List UInt8)} {a? : Option α} (h : oneNested numbers read levels inputs = some a?) :
    inputs = [] ∧ a? = none ∨ ∃ ms a, inputs ≠ [] ∧ 0 < levels ∧
      List.Forall₂ (fun input m => readDeclared numbers (levels - 1) input = some m) inputs ms ∧
      read ms.flatten = some a ∧ a? = some a := by
  cases inputs with
  | nil =>
    cases levels <;> cases h <;> exact .inl ⟨rfl, rfl⟩
  | cons input rest =>
    cases levels with
    | zero => cases h
    | succ levels =>
      obtain ⟨ms, declared, h⟩ := Option.bind_eq_some_iff.mp h
      obtain ⟨a, read, eq⟩ := Option.bind_eq_some_iff.mp h
      cases eq
      exact .inr ⟨ms, a, List.cons_ne_nil _ _, Nat.succ_pos _, mapM_eq_some_iff.mp declared, read,
        rfl⟩

/-- Where nothing may nest, it does not matter how a nested message would be read. -/
theorem oneNested_zero {α : Type} {numbers : List Nat} (read read' : Message → Option α) :
    oneNested numbers read 0 = oneNested numbers read' 0 := by
  funext inputs
  cases inputs <;> rfl

theorem eachNested_zero {α : Type} {numbers : List Nat} (read read' : Message → Option α) :
    eachNested numbers read 0 = eachNested numbers read' 0 := by
  funext inputs
  cases inputs <;> rfl

theorem Attribute.ofMessage?_eq_readWith (levels : Nat) :
    ofMessage? levels = readWith (Graph.ofMessage? (levels - 1)) levels := by
  cases levels with
  | zero =>
    funext m
    simp only [ofMessage?, readWith, oneNested_zero (fun _ => none) (Graph.ofMessage? (0 - 1))]
  | succ levels => rw [ofMessage?, Nat.add_sub_cancel]

theorem Node.ofMessage?_eq_readWith (levels : Nat) :
    ofMessage? levels = readWith (Attribute.ofMessage? (levels - 1)) levels := by
  cases levels with
  | zero =>
    funext m
    simp only [ofMessage?, readWith,
      eachNested_zero (fun _ => none) (Attribute.ofMessage? (0 - 1))]
  | succ levels => rw [ofMessage?, Nat.add_sub_cancel]

theorem Graph.ofMessage?_eq_readWith (levels : Nat) :
    ofMessage? levels = readWith (Node.ofMessage? (levels - 1)) levels := by
  cases levels with
  | zero =>
    funext m
    simp only [ofMessage?, readWith, eachNested_zero (fun _ => none) (Node.ofMessage? (0 - 1))]
  | succ levels => rw [ofMessage?, Nat.add_sub_cancel]

theorem Attribute.ofMessage?_eq_some_iff {levels : Nat} {m : Message} {a : Attribute} :
    ofMessage? levels m = some a ↔ ReadFrom levels m a := by
  rw [ofMessage?_eq_readWith, readWith]
  constructor
  · intro h
    obtain ⟨name, h₁, h⟩ := Option.bind_eq_some_iff.mp h
    obtain ⟨bits, h₂, h⟩ := Option.bind_eq_some_iff.mp h
    obtain ⟨i, h₃, h⟩ := Option.bind_eq_some_iff.mp h
    obtain ⟨s, h₄, h⟩ := Option.bind_eq_some_iff.mp h
    obtain ⟨inputs, h₅, h⟩ := Option.bind_eq_some_iff.mp h
    obtain ⟨t, h₅', h⟩ := Option.bind_eq_some_iff.mp h
    obtain ⟨inputs', h₆, h⟩ := Option.bind_eq_some_iff.mp h
    obtain ⟨g, h₆', h⟩ := Option.bind_eq_some_iff.mp h
    obtain ⟨floats, h₇, h⟩ := Option.bind_eq_some_iff.mp h
    obtain ⟨ints, h₈, h⟩ := Option.bind_eq_some_iff.mp h
    obtain ⟨strings, h₉, h⟩ := Option.bind_eq_some_iff.mp h
    obtain ⟨docString, h₁₀, h⟩ := Option.bind_eq_some_iff.mp h
    obtain ⟨type, h₁₁, h⟩ := Option.bind_eq_some_iff.mp h
    cases h
    refine ⟨h₁, ?_, h₃, h₄, ?_, ?_, ?_, h₈, h₉, h₁₀, h₁₁⟩
    · rw [h₂, Option.map_some]
    · rw [h₅, Option.bind_some, h₅']
    · rw [h₆, Option.bind_some, h₆']
    · rw [h₇, Option.map_some]
  · intro h
    obtain ⟨bits, h₂, f⟩ := Option.map_eq_some_iff.mp h.f
    obtain ⟨inputs, h₅, t⟩ := Option.bind_eq_some_iff.mp h.t
    obtain ⟨inputs', h₆, g⟩ := Option.bind_eq_some_iff.mp h.g
    obtain ⟨floats, h₇, fs⟩ := Option.map_eq_some_iff.mp h.floats
    rw [h.name, h₂, h.i, h.s, h₅, h₆, h₇, h.ints, h.strings, h.docString, h.type]
    simp only [Option.bind_eq_bind, Option.bind_some, t, g, f, fs]
    cases a
    rfl

theorem Node.ofMessage?_eq_some_iff {levels : Nat} {m : Message} {n : Node} :
    ofMessage? levels m = some n ↔ ReadFrom levels m n := by
  rw [ofMessage?_eq_readWith]
  simp only [readWith, Option.bind_eq_bind, Option.bind_eq_some_iff]
  constructor
  · rintro ⟨inputs, h₁, outputs, h₂, name, h₃, opType, h₄, bytes, h₅, attributes, h₅', docString,
      h₆, domain, h₇, eq⟩
    cases eq
    refine ⟨h₁, h₂, h₃, h₄, ?_, h₆, h₇⟩
    rw [h₅, Option.bind_some, h₅']
  · intro h
    obtain ⟨bytes, h₅, attributes⟩ := Option.bind_eq_some_iff.mp h.attributes
    refine ⟨_, h.inputs, _, h.outputs, _, h.name, _, h.opType, _, h₅, _, attributes, _,
      h.docString, _, h.domain, ?_⟩
    cases n
    rfl

theorem Graph.ofMessage?_eq_some_iff {levels : Nat} {m : Message} {g : Graph} :
    ofMessage? levels m = some g ↔ ReadFrom levels m g := by
  rw [ofMessage?_eq_readWith]
  simp only [readWith, Option.bind_eq_bind, Option.bind_eq_some_iff]
  constructor
  · rintro ⟨bytes, h₁, nodes, h₁', name, h₂, bytes', h₃, initializers, h₃', docString, h₄, ins, h₅,
      inputs, h₅', outs, h₆, outputs, h₆', eq⟩
    cases eq
    refine ⟨?_, h₂, ?_, h₄, ?_, ?_⟩
    · rw [h₁, Option.bind_some, h₁']
    · rw [h₃, Option.bind_some, h₃']
    · rw [h₅, Option.bind_some, h₅']
    · rw [h₆, Option.bind_some, h₆']
  · intro h
    obtain ⟨_, h₁, nodes⟩ := Option.bind_eq_some_iff.mp h.nodes
    obtain ⟨_, h₃, initializers⟩ := Option.bind_eq_some_iff.mp h.initializers
    obtain ⟨_, h₅, inputs⟩ := Option.bind_eq_some_iff.mp h.inputs
    obtain ⟨_, h₆, outputs⟩ := Option.bind_eq_some_iff.mp h.outputs
    refine ⟨_, h₁, _, nodes, _, h.name, _, h₃, _, initializers, _, h.docString, _, h₅, _, inputs, _,
      h₆, _, outputs, ?_⟩
    cases g
    rfl

theorem Model.ofMessage?_eq_some_iff {levels : Nat} {m : Message} {x : Model} :
    ofMessage? levels m = some x ↔ ReadFrom levels m x := by
  simp only [ofMessage?, Option.bind_eq_bind, Option.bind_eq_some_iff]
  constructor
  · rintro ⟨irVersion, h₁, producerName, h₂, producerVersion, h₃, domain, h₄, modelVersion, h₅,
      docString, h₆, bytes, h₇, graph, h₇', bytes', h₈, opsets, h₈', eq⟩
    cases eq
    refine ⟨h₁, h₂, h₃, h₄, h₅, h₆, ?_, ?_⟩
    · rw [h₇, Option.bind_some, h₇']
    · rw [h₈, Option.bind_some, h₈']
  · intro h
    obtain ⟨_, h₇, graph⟩ := Option.bind_eq_some_iff.mp h.graph
    obtain ⟨_, h₈, opsets⟩ := Option.bind_eq_some_iff.mp h.opsetImports
    exact ⟨_, h.irVersion, _, h.producerName, _, h.producerVersion, _, h.domain, _, h.modelVersion,
      _, h.docString, _, h₇, _, graph, _, h₈, _, opsets, rfl⟩

end OperatorGraph.Onnx
