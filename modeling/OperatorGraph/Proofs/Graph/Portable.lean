import OperatorGraph.Proofs.Graph.Canonical
import OperatorGraph.Proofs.Graph.Sameness

/-!
Graphs that the format expresses as they are. Every graph that is read from bytes is one, and each
can be written and is the same as its canonical form.
-/

namespace OperatorGraph

namespace Attribute

/-- Whether a scalar is an element of a form, with no more precision than the format keeps. -/
def ListForm.Holds : ListForm → Scalar → Prop
  | .integers, .int _ => True
  | .floats, .float x => x.narrow.widen = x
  | .texts, .text _ => True
  | _, _ => False

/-- The levels that are left for a graph in an attribute, which itself lies in a node, the node's
graph and the model. -/
def payloadLevels : Nat := Onnx.nestingLimit - 4

/-- Whether a payload is what is written for a message of its kind. -/
def Payload.Portable (p : Payload) : Prop :=
  p.bytes.length < 2 ^ 64 ∧
    match p.kind with
    | .tensor => ∃ t, p.bytes = Onnx.Tensor.codec.encode t
    | .graph => ∃ g : Onnx.Graph, g.depth ≤ payloadLevels ∧ p.bytes = Onnx.Graph.codec.encode g

def Value.Portable : Value → Prop
  | .scalar s => ∃ form : ListForm, form.Holds s
  | .list elements => ∃ form : ListForm, ∀ e ∈ elements, form.Holds e
  | .payload p => p.Portable

def Store.Portable (store : Store) : Prop :=
  ∀ name value, store.get? name = some value → value.Portable

variable {s : Scalar}

theorem holds_integers_iff : ListForm.Holds .integers s ↔ ∃ n, s = .int n := by
  cases s <;> simp [ListForm.Holds]

theorem holds_floats_iff : ListForm.Holds .floats s ↔ ∃ x : Binary32, s = .float x.widen := by
  constructor
  · intro h
    cases s with
    | float x => exact ⟨x.narrow, congrArg Scalar.float (Eq.symm h)⟩
    | _ => cases h
  · rintro ⟨x, rfl⟩
    exact x.widen_narrow_widen

theorem holds_texts_iff : ListForm.Holds .texts s ↔ ∃ t, s = .text t := by
  cases s <;> simp [ListForm.Holds]

namespace Scalar

theorem canonical_float_same {x : Binary64} (exact : x.narrow.widen = x) :
    (canonical (.float x)).Same (.float x) := by
  change Binary.Number.Same (Binary32.widen (if x.narrow.isZero then .zero else x.narrow)) x
  split
  · rename_i zero
    have signed : Binary.Number.isZero x.narrow.widen = true :=
      Binary.Number.isZero_convert (by decide) zero
    rw [exact] at signed
    refine .inl (Binary.Number.agrees_iff.mpr ⟨by decide, ?_, .inr ⟨by decide, signed⟩⟩)
    have magnitude : x.magnitude = 0 := by simpa [Binary.Number.isZero] using signed
    simp [Binary.Number.isNaN, magnitude]
  · rw [exact]
    exact .refl x

theorem canonical_same {form : ListForm} (h : form.Holds s) : s.canonical.Same s := by
  cases s with
  | int n => exact .refl _
  | text t => exact .refl _
  | bool b => cases form <;> cases h
  | float x =>
    cases form with
    | floats => exact canonical_float_same h
    | _ => cases h

end Scalar

/-- A list in which every element has one form stays as it is, and it can be written. -/
theorem list_portable {form : ListForm} {elements : List Scalar} (h : ∀ e ∈ elements, form.Holds e)
    (name : String) :
    canonicalList elements = elements ∧
      ∃ a, listMessage? name elements = some a ∧ a.t = none ∧ a.g = none := by
  by_cases empty : elements = []
  · subst empty
    exact ⟨rfl, _, rfl, rfl, rfl⟩
  cases form with
  | integers =>
    obtain ⟨ns, rfl⟩ := exists_map_of_forall fun e member => holds_integers_iff.mp (h e member)
    constructor
    · rw [canonicalList, if_neg (by simp [Scalar.isText]), if_neg (by simp [Scalar.isFloat])]
      simp [Scalar.asInteger]
    · exact ⟨_, listMessage?_ints name ns, rfl, rfl⟩
  | floats =>
    obtain ⟨xs, rfl⟩ := exists_map_of_forall fun e member => holds_floats_iff.mp (h e member)
    have nonempty : xs ≠ [] := fun none => empty (by rw [none, List.map_nil])
    constructor
    · rw [canonicalList, if_neg (by simp [Scalar.isText])]
      split
      · simp [Scalar.asFloat, Binary32.widen_narrow_widen]
      · simp [Scalar.asInteger]
    · exact ⟨_, listMessage?_floats name nonempty, rfl, rfl⟩
  | texts =>
    obtain ⟨ss, rfl⟩ := exists_map_of_forall fun e member => holds_texts_iff.mp (h e member)
    have nonempty : ss ≠ [] := fun none => empty (by rw [none, List.map_nil])
    constructor
    · unfold canonicalList
      split
      · rfl
      · split
        · simp [Scalar.asFloat]
        · simp [Scalar.asInteger]
    · exact ⟨_, listMessage?_texts name nonempty, rfl, rfl⟩

theorem Payload.portable {p : Payload} (h : p.Portable) (name : String) :
    p.canonical = p ∧ ∃ a, p.toMessage? name = some a ∧ a.depth ≤ payloadLevels + 1 := by
  obtain ⟨kind, bytes⟩ := p
  obtain ⟨size, made⟩ := h
  cases kind with
  | tensor =>
    obtain ⟨t, rfl⟩ := made
    have back := Onnx.Tensor.decode?_encode size
    constructor
    · simp only [canonical, back, Option.elim_some]
    · refine ⟨_, by simp only [toMessage?, back]; rfl, ?_⟩
      exact Onnx.Attribute.depth_le_iff.mpr ⟨fun _ => Nat.succ_pos _, by simp⟩
  | graph =>
    obtain ⟨g, deep, rfl⟩ := made
    have back := Onnx.Graph.decode?_encode (deep.trans (by decide)) size
    have kept := (Onnx.Graph.depth_dropZeroSign_le size).trans deep
    constructor
    · simp only [canonical, back, Option.elim_some, Onnx.Graph.encode_dropZeroSign]
    · refine ⟨_, by simp only [toMessage?, back]; rfl, ?_⟩
      refine Onnx.Attribute.depth_le_iff.mpr ⟨fun _ => Nat.succ_pos _, fun g' held => ?_⟩
      cases held
      exact Nat.succ_le_succ kept

theorem depth_of_plain {a : Onnx.Attribute} (h : a.t = none ∧ a.g = none) (levels : Nat) :
    a.depth ≤ levels :=
  Onnx.Attribute.depth_le_iff.mpr ⟨fun some => absurd h.1 some, by simp [h.2]⟩

/-- A portable value can be written, and it is read back as the same value. -/
theorem Value.portable {v : Value} (h : v.Portable) (name : String) :
    v.canonical.Same v ∧ ∃ a, v.toMessage name = .ok a ∧ a.depth ≤ payloadLevels + 1 := by
  cases v with
  | scalar s =>
    obtain ⟨form, holds⟩ := h
    refine ⟨Scalar.canonical_same holds, _, rfl, depth_of_plain ?_ _⟩
    cases s <;> exact ⟨rfl, rfl⟩
  | list elements =>
    obtain ⟨form, holds⟩ := h
    obtain ⟨kept, a, written, plain⟩ := list_portable holds name
    refine ⟨?_, a, by rw [toMessage, written], depth_of_plain plain _⟩
    rw [canonical, kept]
    exact .refl _
  | payload p =>
    obtain ⟨kept, a, written, deep⟩ := Payload.portable h name
    refine ⟨?_, a, by rw [toMessage, written], deep⟩
    rw [canonical, kept]
    exact .refl _

theorem portable_of_floats (xs : List Binary32) :
    (Value.list (xs.map fun x => .float x.widen)).Portable := by
  refine ⟨.floats, fun e member => ?_⟩
  obtain ⟨x, _, rfl⟩ := List.mem_map.mp member
  exact holds_floats_iff.mpr ⟨x, rfl⟩

theorem portable_of_ints (ns : List Int64) : (Value.ints ns).Portable := by
  refine ⟨.integers, fun e member => ?_⟩
  obtain ⟨n, _, rfl⟩ := List.mem_map.mp member
  trivial

theorem portable_of_texts (ss : List String) : (Value.list (ss.map .text)).Portable := by
  refine ⟨.texts, fun e member => ?_⟩
  obtain ⟨s, _, rfl⟩ := List.mem_map.mp member
  trivial

theorem Value.portable_of_ofMessage {a : Onnx.Attribute} {v : Value} (h : ofMessage a = .ok v)
    (deep : a.depth ≤ payloadLevels + 1) (size : (Onnx.Attribute.codec.encode a).length < 2 ^ 64) :
    v.Portable := by
  cases readFrom_of_ofMessage h with
  | float type => exact ⟨.floats, holds_floats_iff.mpr ⟨_, rfl⟩⟩
  | int type => exact ⟨.integers, trivial⟩
  | text type valid => exact ⟨.texts, trivial⟩
  | floats type => exact portable_of_floats a.floats
  | ints type => exact portable_of_ints a.ints
  | texts type valid => exact portable_of_texts _
  | tensor type held =>
    exact ⟨(Onnx.Attribute.length_encode_tensor held).trans_lt size, _, rfl⟩
  | graph type held =>
    have room := (Onnx.Attribute.depth_le_iff.mp deep).2 _ held
    exact ⟨(Onnx.Attribute.length_encode_graph held).trans_lt size, _,
      Nat.le_of_succ_le_succ room, rfl⟩

end Attribute

open Attribute (Value payloadLevels)

structure Node.Portable (node : Node) : Prop where
  named : node.name ≠ some ""
  attributes : node.attributes.Portable

structure Graph.Portable (g : Graph) : Prop where
  named : g.name ≠ some ""
  nodes : ∀ node ∈ g.nodes, node.Portable

theorem optionalName_ne (name : String) : optionalName name ≠ some "" := by
  unfold optionalName
  split
  · simp
  · rename_i nonempty
    simpa using nonempty

theorem optionalName_of_ne {name : Option String} (h : name ≠ some "") :
    optionalName (name.getD "") = name := by
  cases name with
  | none => rfl
  | some name => exact if_neg fun empty => h (congrArg some empty)

theorem Node.portable {node : Node} (h : node.Portable) :
    node.canonical.Same node ∧ ∃ n, node.toMessage = .ok n ∧ n.depth ≤ payloadLevels + 2 := by
  have held : ∀ e ∈ node.attributes.entries, e.2.Portable := fun e member =>
    h.attributes e.1 e.2 (NameMap.mem_entries_iff.mp member)
  constructor
  · refine ⟨?_, List.forall₂_map_left_iff.mpr (List.forall₂_same.mpr fun e member => ?_)⟩
    · rw [canonical, optionalName_of_ne h.named]
    · exact ⟨rfl, (Value.portable (held e member) e.1).1⟩
  · obtain ⟨attributes, written⟩ := exists_forall₂ fun e member =>
      (Value.portable (held e member) e.1).2
    refine ⟨_, toMessage_eq_ok_iff.mpr ⟨attributes, written.imp fun _ _ w => w.1, rfl⟩, ?_⟩
    apply Onnx.Node.depth_le_iff.mpr
    intro a member
    obtain ⟨e, _, _, deep⟩ := exists_of_mem_right written member
    exact Nat.succ_le_succ deep

/-- A portable graph can be written, and it is read back as the same graph. -/
theorem Graph.portable {g : Graph} (h : g.Portable) :
    g.canonical.Same g ∧ ∃ x, g.toModel = .ok x ∧ x.depth ≤ Onnx.nestingLimit := by
  constructor
  · refine ⟨?_, List.forall₂_map_left_iff.mpr (List.forall₂_same.mpr fun node member => ?_)⟩
    · rw [canonical, optionalName_of_ne h.named]
    · exact (Node.portable (h.nodes node member)).1
  · obtain ⟨nodes, written⟩ := exists_forall₂ fun node member =>
      (Node.portable (h.nodes node member)).2
    refine ⟨_, toModel_eq_ok_iff.mpr ⟨nodes, written.imp fun _ _ w => w.1, rfl⟩, ?_⟩
    refine Onnx.Model.depth_le_iff.mpr ⟨fun x held => ?_, fun _ => by decide⟩
    cases held
    have room : ∀ n ∈ nodes, n.depth + 1 ≤ payloadLevels + 3 := fun n member => by
      obtain ⟨node, _, _, deep⟩ := exists_of_mem_right written member
      exact Nat.succ_le_succ deep
    refine Nat.succ_le_succ (Onnx.Graph.depth_le_iff.mpr ⟨room, ?_, ?_, ?_⟩)
    · intro _
      exact Nat.succ_pos _
    · intro _
      exact Nat.succ_pos _
    · intro _
      exact Nat.succ_pos _

theorem Node.portable_of_ofMessage {n : Onnx.Node} {node : Node} (h : ofMessage n = .ok node)
    (deep : n.depth ≤ payloadLevels + 2) (size : (Onnx.Node.codec.encode n).length < 2 ^ 64) :
    node.Portable := by
  obtain ⟨entries, related, _, rfl⟩ := ofMessage_eq_ok_iff.mp h
  refine ⟨optionalName_ne _, fun name value held => ?_⟩
  have member : (name, value) ∈ entries := NameMap.mem_of_get?_ofList held
  obtain ⟨a, inside, _, read⟩ := exists_of_mem_right related member
  have room := Onnx.Node.depth_le_iff.mp deep a inside
  exact Value.portable_of_ofMessage read (Nat.le_of_succ_le_succ room)
    ((Onnx.Node.length_encode_attribute inside).trans_lt size)

theorem Graph.portable_of_ofModel {x : Onnx.Model} {g : Graph} (h : ofModel x = .ok g)
    (deep : x.depth ≤ Onnx.nestingLimit) (size : (Onnx.Model.codec.encode x).length < 2 ^ 64) :
    g.Portable := by
  obtain ⟨graph, holds, nodes, related, rfl⟩ := ofModel_eq_ok_iff.mp h
  refine ⟨optionalName_ne _, fun node member => ?_⟩
  obtain ⟨n, inside, read⟩ := exists_of_mem_right related member
  have room := (Onnx.Model.depth_le_iff.mp deep).1 graph holds
  have nested := (Onnx.Graph.depth_le_iff.mp (Nat.le_of_succ_le_succ room)).1 n inside
  exact Node.portable_of_ofMessage read (Nat.le_of_succ_le_succ nested)
    ((Onnx.Model.length_encode_node holds inside).trans_lt size)

end OperatorGraph
