import OperatorGraph.Proofs.Graph.Payload

/-!
Which graphs can be written, and what keeps the others from it: the first attribute, node by node
and by name, that no ONNX attribute stands for. The order of elements in a list does not matter.
-/

namespace OperatorGraph

namespace Attribute

namespace Scalar

variable {s : Scalar}

theorem exists_utf8?_iff : (∃ bytes, s.utf8? = some bytes) ↔ ∃ t, s = .text t := by
  cases s <;> simp [utf8?]

theorem exists_single?_iff :
    (∃ x, s.single? = some x) ↔ (∀ t, s ≠ .text t) ∧ ∀ b, s ≠ .bool b := by
  cases s <;> simp [single?]

theorem exists_integer?_iff :
    (∃ n, s.integer? = some n) ↔ (∀ t, s ≠ .text t) ∧ ∀ x, s ≠ .float x := by
  cases s <;> simp [integer?]

theorem any_iff {α : Type} {p : Scalar → Bool} {mk : α → Scalar}
    (made : ∀ s, p s = true ↔ ∃ x, s = mk x) {elements : List Scalar} :
    elements.any p = true ↔ ∃ x, mk x ∈ elements := by
  simp only [List.any_eq_true, made]
  constructor
  · rintro ⟨_, member, x, rfl⟩
    exact ⟨x, member⟩
  · rintro ⟨x, member⟩
    exact ⟨mk x, member, x, rfl⟩

theorem any_isText_iff {elements : List Scalar} :
    elements.any isText = true ↔ ∃ t, .text t ∈ elements :=
  any_iff fun s => by cases s <;> simp [isText]

theorem any_isFloat_iff {elements : List Scalar} :
    elements.any isFloat = true ↔ ∃ x, .float x ∈ elements :=
  any_iff fun s => by cases s <;> simp [isFloat]

end Scalar

/-- Whether elements can share a list: only texts, or no text and not both a float and a flag. -/
def Uniform (elements : List Scalar) : Prop :=
  (∀ e ∈ elements, ∃ t, e = .text t) ∨
    (∀ t, .text t ∉ elements) ∧ ¬ ((∃ x, .float x ∈ elements) ∧ ∃ b, .bool b ∈ elements)

theorem Uniform.perm {as bs : List Scalar} (h : as.Perm bs) : Uniform as ↔ Uniform bs := by
  simp only [Uniform, h.mem_iff]

theorem uniform_iff_of_textless {elements : List Scalar} (textless : ∀ t, .text t ∉ elements) :
    Uniform elements ↔ ¬ ((∃ x, .float x ∈ elements) ∧ ∃ b, .bool b ∈ elements) := by
  constructor
  · rintro (texts | ⟨_, apart⟩)
    · rintro ⟨⟨x, member⟩, _⟩
      obtain ⟨t, same⟩ := texts _ member
      cases same
    · exact apart
  · exact fun apart => .inr ⟨textless, apart⟩

theorem exists_listMessage?_iff (name : String) {elements : List Scalar} :
    (∃ a, listMessage? name elements = some a) ↔ Uniform elements := by
  unfold listMessage?
  split
  · rename_i someText
    obtain ⟨t, member⟩ := Scalar.any_isText_iff.mp someText
    rw [exists_map_eq_some_iff, exists_mapM_eq_some_iff]
    simp only [Scalar.exists_utf8?_iff]
    exact ⟨.inl, fun uniform => uniform.resolve_right fun textless => textless.1 t member⟩
  · rename_i noText
    have textless : ∀ t, .text t ∉ elements := fun t member =>
      noText (Scalar.any_isText_iff.mpr ⟨t, member⟩)
    rw [uniform_iff_of_textless textless]
    split
    · rename_i someFloat
      rw [exists_map_eq_some_iff, exists_mapM_eq_some_iff]
      simp only [Scalar.exists_single?_iff]
      constructor
      · rintro numbers ⟨_, b, member⟩
        exact (numbers _ member).2 b rfl
      · intro apart e member
        refine ⟨fun t same => textless t (same ▸ member), fun b same => ?_⟩
        exact apart ⟨Scalar.any_isFloat_iff.mp someFloat, b, same ▸ member⟩
    · rename_i noFloat
      have floatless : ∀ x, .float x ∉ elements := fun x member =>
        noFloat (Scalar.any_isFloat_iff.mpr ⟨x, member⟩)
      rw [exists_map_eq_some_iff, exists_mapM_eq_some_iff]
      simp only [Scalar.exists_integer?_iff]
      refine iff_of_true (fun e member => ?_) fun ⟨⟨x, member⟩, _⟩ => floatless x member
      exact ⟨fun t same => textless t (same ▸ member), fun x same => floatless x (same ▸ member)⟩

/-- Whether a payload is a message of its kind. -/
def Payload.Decodes (p : Payload) : Prop :=
  ∃ x, p.kind.messageType.codec.decode? p.bytes = some x

theorem Payload.exists_toMessage?_iff (p : Payload) (name : String) :
    (∃ a, p.toMessage? name = some a) ↔ p.Decodes := by
  obtain ⟨kind, bytes⟩ := p
  cases kind with
  | tensor => exact exists_map_eq_some_iff
  | graph => exact exists_map_eq_some_iff

namespace Value

variable {v v' : Value} {name : String} {fault : EncodeFault}

/-- Whether an ONNX attribute stands for a value. -/
def Expressible : Value → Prop
  | scalar _ => True
  | list elements => Uniform elements
  | payload p => p.Decodes

/-- Why no ONNX attribute with a name stands for a value. -/
inductive Inexpressible (name : String) : Value → EncodeFault → Prop
  | list {elements : List Scalar} (mixed : ¬ Uniform elements) :
      Inexpressible name (.list elements) (.heterogeneous name)
  | payload {p : Payload} (corrupt : ¬ p.Decodes) :
      Inexpressible name (.payload p) (.corruptPayload name p.kind)

theorem Inexpressible.not_expressible (h : v.Inexpressible name fault) : ¬ v.Expressible := by
  cases h with
  | list mixed => exact mixed
  | payload corrupt => exact corrupt

theorem Inexpressible.unique {fault' : EncodeFault} (h : v.Inexpressible name fault)
    (h' : v.Inexpressible name fault') : fault = fault' := by
  cases h <;> cases h' <;> rfl

/-- Either way, what is made of a value is what it should be. -/
theorem toMessage_cases (name : String) (v : Value) :
    (∃ a, v.toMessage name = .ok a ∧ v.Expressible) ∨
      ∃ fault, v.toMessage name = .error fault ∧ v.Inexpressible name fault := by
  cases v with
  | scalar s => exact .inl ⟨_, rfl, trivial⟩
  | list elements =>
    have possible : _ ↔ Uniform elements := exists_listMessage?_iff name
    cases written : listMessage? name elements with
    | some a => exact .inl ⟨a, by rw [toMessage, written], possible.mp ⟨a, written⟩⟩
    | none =>
      refine .inr ⟨_, by rw [toMessage, written], .list fun uniform => ?_⟩
      obtain ⟨a, made⟩ := possible.mpr uniform
      cases written.symm.trans made
  | payload p =>
    have possible := p.exists_toMessage?_iff name
    cases written : p.toMessage? name with
    | some a => exact .inl ⟨a, by rw [toMessage, written], possible.mp ⟨a, written⟩⟩
    | none =>
      refine .inr ⟨_, by rw [toMessage, written], .payload fun decodes => ?_⟩
      obtain ⟨a, made⟩ := possible.mpr decodes
      cases written.symm.trans made

theorem exists_toMessage_iff : (∃ a, v.toMessage name = .ok a) ↔ v.Expressible := by
  rcases toMessage_cases name v with ⟨a, written, expressible⟩ | ⟨fault, failed, inexpressible⟩
  · exact iff_of_true ⟨a, written⟩ expressible
  · refine iff_of_false (fun ⟨a, written⟩ => ?_) inexpressible.not_expressible
    cases failed.symm.trans written

theorem toMessage_eq_error_iff : v.toMessage name = .error fault ↔ v.Inexpressible name fault := by
  rcases toMessage_cases name v with ⟨a, written, expressible⟩ | ⟨fault', failed, inexpressible⟩
  · rw [written]
    exact iff_of_false nofun fun inexpressible => inexpressible.not_expressible expressible
  · rw [failed, Except.error.injEq]
    exact ⟨fun same => same ▸ inexpressible, inexpressible.unique⟩

/-- The same value, with the elements of a list in any order. -/
inductive Rearranged : Value → Value → Prop
  | same (v : Value) : Rearranged v v
  | list {as bs : List Scalar} (perm : as.Perm bs) : Rearranged (.list as) (.list bs)

theorem Rearranged.symm (h : v.Rearranged v') : v'.Rearranged v := by
  cases h with
  | same v => exact .same v
  | list perm => exact .list perm.symm

theorem Rearranged.inexpressible (h : v.Rearranged v') (fails : v.Inexpressible name fault) :
    v'.Inexpressible name fault := by
  cases h with
  | same v => exact fails
  | list perm =>
    cases fails with
    | list mixed => exact .list ((Uniform.perm perm).not.mp mixed)

theorem Rearranged.toMessage_eq_error_iff (h : v.Rearranged v') :
    v.toMessage name = .error fault ↔ v'.toMessage name = .error fault := by
  rw [Value.toMessage_eq_error_iff, Value.toMessage_eq_error_iff]
  exact ⟨h.inexpressible, h.symm.inexpressible⟩

end Value

end Attribute

open Attribute (Value)

variable {fault : EncodeFault}

namespace Node

variable {node node' : Node}

/-- Whether ONNX attributes stand for all attributes of a node. -/
def Expressible (node : Node) : Prop :=
  ∀ name value, node.attributes.get? name = some value → value.Expressible

/-- Why a node cannot be written: for the first attribute, by name, that cannot be expressed. -/
def Inexpressible (node : Node) (fault : EncodeFault) : Prop :=
  ∃ name value, node.attributes.get? name = some value ∧ value.Inexpressible name fault ∧
    ∀ other value', other < name → node.attributes.get? other = some value' → value'.Expressible

theorem exists_toMessage_iff : (∃ n, node.toMessage = .ok n) ↔ node.Expressible := by
  rw [toMessage, exists_map_except_eq_ok_iff, exists_mapM_eq_ok_iff, Prod.forall]
  simp only [Value.exists_toMessage_iff, NameMap.mem_entries_iff]
  rfl

theorem toMessage_eq_error_iff : node.toMessage = .error fault ↔ node.Inexpressible fault := by
  rw [toMessage, map_except_eq_error_iff, mapM_eq_error_iff]
  simp only [Value.exists_toMessage_iff, Value.toMessage_eq_error_iff]
  exact NameMap.exists_first_iff

/-- Nodes with the same attributes, up to the order in lists. -/
def Rearranged (node node' : Node) : Prop :=
  ∀ name, Option.Rel Value.Rearranged (node.attributes.get? name) (node'.attributes.get? name)

theorem Rearranged.toMessage_eq_error_iff (h : node.Rearranged node') :
    node.toMessage = .error fault ↔ node'.toMessage = .error fault := by
  rw [toMessage, toMessage, map_except_eq_error_iff, map_except_eq_error_iff]
  refine mapM_eq_error_congr ((NameMap.entriesRelated_iff.mpr h).imp ?_)
  rintro ⟨name, v⟩ ⟨_, v'⟩ ⟨rfl, rearranged⟩ fault
  exact rearranged.toMessage_eq_error_iff

end Node

namespace Graph

variable {g g' : Graph}

def Expressible (g : Graph) : Prop := ∀ node ∈ g.nodes, node.Expressible

/-- Why a graph cannot be written: for the first node that cannot. -/
def Inexpressible (g : Graph) (fault : EncodeFault) : Prop :=
  ∃ earlier node later, g.nodes = earlier ++ node :: later ∧
    (∀ node' ∈ earlier, node'.Expressible) ∧ node.Inexpressible fault

/-- Graphs whose nodes have the same attributes, up to the order in lists. -/
def Rearranged (g g' : Graph) : Prop := List.Forall₂ Node.Rearranged g.nodes g'.nodes

theorem exists_toOnnx_iff : (∃ bytes, g.toOnnx = .ok bytes) ↔ g.Expressible := by
  rw [toOnnx, exists_map_except_eq_ok_iff, toModel, exists_map_except_eq_ok_iff,
    exists_mapM_eq_ok_iff]
  exact forall₂_congr fun _ _ => Node.exists_toMessage_iff

theorem toOnnx_eq_error_iff_mapM :
    g.toOnnx = .error fault ↔ g.nodes.mapM Node.toMessage = .error fault := by
  rw [toOnnx, map_except_eq_error_iff, toModel, map_except_eq_error_iff]

theorem toOnnx_eq_error_iff : g.toOnnx = .error fault ↔ g.Inexpressible fault := by
  rw [toOnnx_eq_error_iff_mapM, mapM_eq_error_iff]
  simp only [Node.exists_toMessage_iff, Node.toMessage_eq_error_iff]
  rfl

theorem Rearranged.toOnnx_eq_error_iff (h : g.Rearranged g') :
    g.toOnnx = .error fault ↔ g'.toOnnx = .error fault := by
  rw [toOnnx_eq_error_iff_mapM, toOnnx_eq_error_iff_mapM]
  exact mapM_eq_error_congr (h.imp fun _ _ rearranged _ => rearranged.toMessage_eq_error_iff)

/-- A graph can be written exactly if all of its attributes can be expressed; otherwise the fault is
that of the first one that cannot, in whatever order the elements of lists are. -/
theorem toOnnx_expresses (g : Graph) :
    ((∃ bytes, g.toOnnx = .ok bytes) ↔ g.Expressible) ∧
      (∀ fault, g.toOnnx = .error fault ↔ g.Inexpressible fault) ∧
      ∀ g', g.Rearranged g' → ∀ fault, g.toOnnx = .error fault ↔ g'.toOnnx = .error fault :=
  ⟨exists_toOnnx_iff, fun _ => toOnnx_eq_error_iff, fun _ h _ => h.toOnnx_eq_error_iff⟩

/-- The smaller name counts, whichever attribute was set first. -/
example :
    let attributes : Attribute.Store :=
      .ofList [("value", .payload ⟨.tensor, [255]⟩), ("axes", .list [.float .zero, .bool true])]
    toOnnx { nodes := [{ opType := "Constant", attributes }] } = .error (.heterogeneous "axes") :=
  rfl

end Graph

end OperatorGraph
