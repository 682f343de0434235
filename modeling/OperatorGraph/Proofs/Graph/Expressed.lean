import OperatorGraph.Proofs.Graph.Portable
import OperatorGraph.Proofs.Onnx.Limit

/-!
Any graph that can be written, loaded again: what comes back is what the format has expressed the
graph as, and it comes back exactly if the graphs inside the graph leave room for the messages that
are put around them.
-/

namespace OperatorGraph

/-- What holds of each element, if it holds of each that stands beside one. -/
theorem forall_mem_congr {α β : Type} {r : α → β → Prop} {p : α → Prop} {q : β → Prop}
    {as : List α} {bs : List β} (related : List.Forall₂ r as bs)
    (same : ∀ a b, r a b → (p a ↔ q b)) : (∀ a ∈ as, p a) ↔ ∀ b ∈ bs, q b := by
  induction related with
  | nil => simp
  | cons first _ ih => simp only [List.forall_mem_cons, same _ _ first, ih]

namespace Attribute

/-- A scalar as the format expresses it, which has no booleans and single precision only. -/
def Scalar.expressed : Scalar → Scalar
  | .bool b => .int (flag b)
  | .float x => .float x.narrow.widen
  | s => s

def Value.expressed : Value → Value
  | .scalar s => .scalar s.expressed
  | .list elements => .list (canonicalList elements)
  | .payload p => .payload p.canonical

theorem Scalar.canonical_same_expressed (s : Scalar) : s.canonical.Same s.expressed := by
  cases s with
  | int n => exact .refl _
  | bool b => exact .refl _
  | text t => exact .refl _
  | float x =>
    -- a zero that has lost its sign is still the same number
    have same := canonical_float_same x.narrow.widen_narrow_widen
    simpa only [canonical, expressed, x.narrow_widen_narrow] using same

theorem Value.canonical_same_expressed (v : Value) : v.canonical.Same v.expressed := by
  cases v with
  | scalar s => exact s.canonical_same_expressed
  | list elements => exact .refl _
  | payload p => exact .refl _

/-- Whether a graph inside an attribute leaves room for the messages around it. -/
def Value.Fits : Value → Prop
  | .payload ⟨.graph, bytes⟩ =>
    ∀ x, Onnx.Graph.codec.decode? bytes = some x → x.depth ≤ payloadLevels
  | _ => True

variable {name : String} {a : Onnx.Attribute}

theorem plain_of_listMessage? {elements : List Scalar} (h : listMessage? name elements = some a) :
    a.t = none ∧ a.g = none := by
  unfold listMessage? at h
  split at h
  · obtain ⟨_, _, rfl⟩ := Option.map_eq_some_iff.mp h
    exact ⟨rfl, rfl⟩
  · split at h
    · obtain ⟨_, _, rfl⟩ := Option.map_eq_some_iff.mp h
      exact ⟨rfl, rfl⟩
    · obtain ⟨_, _, rfl⟩ := Option.map_eq_some_iff.mp h
      exact ⟨rfl, rfl⟩

theorem Payload.depth_le_iff_fits {p : Payload} (written : p.toMessage? name = some a) :
    a.depth ≤ payloadLevels + 1 ↔ (Value.payload p).Fits := by
  obtain ⟨kind, bytes⟩ := p
  cases kind with
  | tensor =>
    obtain ⟨t, _, rfl⟩ := Option.map_eq_some_iff.mp written
    refine iff_of_true (Onnx.Attribute.depth_le_iff.mpr ⟨?_, ?_⟩) trivial
    · intro _
      exact Nat.succ_pos _
    · intro g held
      cases held
  | graph =>
    obtain ⟨x, read, rfl⟩ := Option.map_eq_some_iff.mp written
    constructor
    · intro deep x' read'
      cases read.symm.trans read'
      exact Nat.le_of_succ_le_succ ((Onnx.Attribute.depth_le_iff.mp deep).2 x rfl)
    · intro fits
      refine Onnx.Attribute.depth_le_iff.mpr ⟨?_, ?_⟩
      · intro none
        exact absurd rfl none
      · intro g held
        cases held
        exact Nat.succ_le_succ (fits x read)

theorem Value.depth_le_iff_fits {v : Value} (written : v.toMessage name = .ok a) :
    a.depth ≤ payloadLevels + 1 ↔ v.Fits := by
  cases v with
  | scalar s =>
    cases written
    refine iff_of_true (depth_of_plain ?_ _) trivial
    cases s <;> exact ⟨rfl, rfl⟩
  | list elements =>
    simp only [toMessage] at written
    split at written
    · rename_i a' listed
      cases written
      exact iff_of_true (depth_of_plain (plain_of_listMessage? listed) _) trivial
    · cases written
  | payload p =>
    simp only [toMessage] at written
    split at written
    · rename_i a' kept
      cases written
      exact Payload.depth_le_iff_fits kept
    · cases written

end Attribute

open Attribute (Value payloadLevels)

def Node.expressed (node : Node) : Node :=
  { node with
    name := optionalName (node.name.getD "")
    attributes := node.attributes.mapValues Value.expressed }

/-- A graph as the format expresses it: empty names count as none, booleans as integers, floats and
the integers between them have single precision, and payloads are written anew. -/
def Graph.expressed (g : Graph) : Graph :=
  { g with name := optionalName (g.name.getD ""), nodes := g.nodes.map Node.expressed }

theorem Node.canonical_same_expressed (node : Node) : node.canonical.Same node.expressed := by
  refine ⟨rfl, List.forall₂_map_left_iff.mpr (List.forall₂_map_right_iff.mpr ?_)⟩
  refine List.forall₂_same.mpr fun e _ => ⟨rfl, e.2.canonical_same_expressed⟩

theorem Graph.canonical_same_expressed (g : Graph) : g.canonical.Same g.expressed := by
  refine ⟨rfl, List.forall₂_map_left_iff.mpr (List.forall₂_map_right_iff.mpr ?_)⟩
  exact List.forall₂_same.mpr fun node _ => node.canonical_same_expressed

/-- Whether every graph inside a graph leaves room for the messages around it. -/
def Graph.Fits (g : Graph) : Prop :=
  ∀ node ∈ g.nodes, ∀ name value, node.attributes.get? name = some value → value.Fits

theorem Node.depth_le_iff_fits {node : Node} {n : Onnx.Node} (written : node.toMessage = .ok n) :
    n.depth ≤ payloadLevels + 2 ↔
      ∀ name value, node.attributes.get? name = some value → value.Fits := by
  obtain ⟨attributes, related, rfl⟩ := toMessage_eq_ok_iff.mp written
  have each : (∀ e ∈ node.attributes.entries, e.2.Fits) ↔
      ∀ a ∈ attributes, a.depth + 1 ≤ payloadLevels + 2 := by
    refine forall_mem_congr related fun e a made => ?_
    exact (Value.depth_le_iff_fits made).symm.trans Nat.succ_le_succ_iff.symm
  rw [Onnx.Node.depth_le_iff]
  refine each.symm.trans ⟨fun fits name value held => ?_, fun fits e member => ?_⟩
  · exact fits _ (NameMap.mem_entries_iff.mpr held)
  · exact fits e.1 e.2 (NameMap.mem_entries_iff.mp member)

theorem Graph.depth_le_iff_fits {g : Graph} {x : Onnx.Model} (written : g.toModel = .ok x) :
    x.depth ≤ Onnx.nestingLimit ↔ g.Fits := by
  obtain ⟨nodes, related, rfl⟩ := toModel_eq_ok_iff.mp written
  have each : g.Fits ↔ ∀ n ∈ nodes, n.depth + 1 ≤ payloadLevels + 3 := by
    refine forall_mem_congr related fun node n made => ?_
    exact (Node.depth_le_iff_fits made).symm.trans Nat.succ_le_succ_iff.symm
  rw [each, Onnx.Model.depth_le_iff]
  constructor
  · intro deep
    exact (Onnx.Graph.depth_le_iff.mp (Nat.le_of_succ_le_succ (deep.1 _ rfl))).1
  · intro deep
    refine ⟨fun x held => ?_, fun _ => by decide⟩
    cases held
    refine Nat.succ_le_succ (Onnx.Graph.depth_le_iff.mpr ⟨deep, ?_, ?_, ?_⟩)
    · intro _
      exact Nat.succ_pos _
    · intro _
      exact Nat.succ_pos _
    · intro _
      exact Nat.succ_pos _

/-- What has been written loads exactly if the graphs inside fit, and then it is what the format
has expressed, which is written as the same bytes again. Bytes in memory are always fewer than
`2 ^ 63`. -/
theorem Graph.ofOnnx_of_toOnnx {g : Graph} {bytes : List UInt8} (size : bytes.length < 2 ^ 63)
    (written : g.toOnnx = .ok bytes) :
    ((∃ reloaded, ofOnnx bytes = .ok reloaded) ↔ g.Fits) ∧
      ∀ reloaded, ofOnnx bytes = .ok reloaded →
        reloaded.Same g.expressed ∧ reloaded.toOnnx = .ok bytes := by
  obtain ⟨x, made, rfl⟩ := map_except_eq_ok_iff.mp written
  have fits := depth_le_iff_fits made
  have small : (Onnx.Model.codec.encode x).length < 2 ^ 64 := size.trans (by decide)
  have decoded := Onnx.Model.decode?_encode_iff small
  have deep {reloaded : Graph} (loaded : ofOnnx (Onnx.Model.codec.encode x) = .ok reloaded) :
      x.depth ≤ Onnx.nestingLimit := by
    apply decoded.mp
    unfold ofOnnx at loaded
    split at loaded
    · rename_i y found
      exact ⟨y, found⟩
    · cases loaded
  constructor
  · constructor
    · rintro ⟨reloaded, loaded⟩
      exact fits.mp (deep loaded)
    · intro room
      exact ⟨g.canonical, (reload made (fits.mpr room) small).1⟩
  · intro reloaded loaded
    obtain ⟨again, rewritten⟩ := reload made (deep loaded) small
    cases again.symm.trans loaded
    exact ⟨g.canonical_same_expressed, rewritten⟩

/-- Empty names, a boolean, an integer beside a float that is no single, and a graph with a field
that is written though it is empty. -/
theorem Graph.ofOnnx_of_toOnnx_mixed :
    let g : Graph :=
      { name := some ""
        nodes :=
          [{ opType := "If"
             name := some ""
             attributes := .ofList
               [("b", .scalar (.bool true)), ("g", .payload ⟨.graph, [18, 0]⟩),
                ("l", .list [.int 1, .float (.ofBits 0x3FB999999999999A)])] }] }
    let bytes : List UInt8 :=
      [58, 44, 10, 42, 34, 2, 73, 102, 42, 8, 10, 1, 98, 24, 1, 160, 1, 2, 42, 8, 10, 1, 103, 50, 0,
        160, 1, 5, 42, 16, 10, 1, 108, 58, 8, 0, 0, 128, 63, 205, 204, 204, 61, 160, 1, 6]
    bytes.length < 2 ^ 63 ∧ g.toOnnx = .ok bytes ∧
      ((∃ reloaded, ofOnnx bytes = .ok reloaded) ↔ g.Fits) ∧
        ∀ reloaded, ofOnnx bytes = .ok reloaded →
          reloaded.Same g.expressed ∧ reloaded.toOnnx = .ok bytes := by
  intro g bytes
  have size : bytes.length < 2 ^ 63 := by decide
  have written : g.toOnnx = .ok bytes := by decide
  exact ⟨size, written, ofOnnx_of_toOnnx size written⟩

end OperatorGraph
