import OperatorGraph.Proofs.Onnx.Decoded

/-!
The limit on nesting is exact: a message that nests deeper than the levels allow is not read back
from what is written for it.
-/

namespace OperatorGraph.Onnx

open Wire

namespace Codec.WellFormed

variable {α : Type} {c : Codec α} (h : c.WellFormed)
variable {m : Message} {number levels : Nat} {read : Message → Option α}

include h

/-- Of messages that have been read back from a field, each has been read for itself. -/
theorem read_of_eachNested {as bs : List α}
    (holds : m.contents number =
      Message.contents (Field.eachBytes number (as.map c.encode)) number)
    (size : m.write.length < 2 ^ 64)
    (done : (m.eachBytes? number).bind (eachNested c.numbers read levels) = some bs) {a : α}
    (member : a ∈ as) : 0 < levels ∧ ∃ b, read (c.toMessage a) = some b := by
  have small := (length_le_of_contents holds member).trans_lt size
  simp only [Message.eachBytes?_of_contents holds, Option.bind_some] at done
  have related := List.forall₂_map_left_iff.mp (eachNested_spec done)
  obtain ⟨b, _, pos, m', declared, back⟩ := exists_of_mem_right related.flip member
  cases (h.readDeclared_encode small _).symm.trans declared
  exact ⟨pos, b, back⟩

theorem read_of_oneNested {a? b? : Option α}
    (holds : m.contents number =
      Message.contents (Field.eachBytes number (a?.toList.map c.encode)) number)
    (size : m.write.length < 2 ^ 64)
    (done : (m.eachBytes? number).bind (oneNested c.numbers read levels) = some b?) {a : α}
    (member : a ∈ a?) : 0 < levels ∧ ∃ b, read (c.toMessage a) = some b := by
  cases member
  have small := (length_le_of_contents holds List.mem_cons_self).trans_lt size
  simp only [Message.eachBytes?_of_contents holds, Option.bind_some] at done
  rcases oneNested_spec done with ⟨none, _⟩ | ⟨ms, b, _, pos, declared, back, _⟩
  · cases none
  · obtain ⟨m', rest, first, last, rfl⟩ := List.forall₂_cons_left_iff.mp declared
    cases (h.readDeclared_encode small _).symm.trans first
    cases last
    exact ⟨pos, b, by simpa using back⟩

end Codec.WellFormed

variable {levels : Nat}

theorem Attribute.depth_le_of_read
    (graphs : 0 < levels → ∀ g b : Graph, (Graph.codec.encode g).length < 2 ^ 64 →
      Graph.ofMessage? (levels - 1) g.toMessage = some b → g.depth ≤ levels - 1)
    {a b : Attribute} (size : (codec.encode a).length < 2 ^ 64)
    (done : ofMessage? levels a.toMessage = some b) : a.depth ≤ levels := by
  have held := ofMessage?_eq_some_iff.mp done
  refine depth_le_iff.mpr ⟨fun some => ?_, fun g member => ?_⟩
  · obtain ⟨t, member⟩ := Option.ne_none_iff_exists'.mp some
    exact (Tensor.codec_wellFormed.read_of_oneNested (by simp [codec, toMessage_eq]) size held.t
      member).1
  · obtain ⟨pos, b, back⟩ :=
      Graph.codec_wellFormed.read_of_oneNested (by simp [codec, toMessage_eq]) size held.g member
    have below := graphs pos g b ((length_encode_graph member).trans_lt size) back
    omega

theorem Node.depth_le_of_read
    (attributes : 0 < levels → ∀ a b : Attribute, (Attribute.codec.encode a).length < 2 ^ 64 →
      Attribute.ofMessage? (levels - 1) a.toMessage = some b → a.depth ≤ levels - 1)
    {n b : Node} (size : (codec.encode n).length < 2 ^ 64)
    (done : ofMessage? levels n.toMessage = some b) : n.depth ≤ levels := by
  have held := ofMessage?_eq_some_iff.mp done
  refine depth_le_iff.mpr fun a member => ?_
  obtain ⟨pos, b, back⟩ := Attribute.codec_wellFormed.read_of_eachNested
    (by simp [codec, toMessage_eq]) size held.attributes member
  have below := attributes pos a b ((length_encode_attribute member).trans_lt size) back
  omega

theorem Graph.depth_le_of_read
    (nodes : 0 < levels → ∀ n b : Node, (Node.codec.encode n).length < 2 ^ 64 →
      Node.ofMessage? (levels - 1) n.toMessage = some b → n.depth ≤ levels - 1)
    {g b : Graph} (size : (codec.encode g).length < 2 ^ 64)
    (done : ofMessage? levels g.toMessage = some b) : g.depth ≤ levels := by
  have held := ofMessage?_eq_some_iff.mp done
  refine depth_le_iff.mpr ⟨fun n member => ?_, fun nonempty => ?_, fun nonempty => ?_,
    fun nonempty => ?_⟩
  · obtain ⟨pos, b, back⟩ :=
      Node.codec_wellFormed.read_of_eachNested (by simp [codec, toMessage_eq]) size held.nodes
        member
    have below := nodes pos n b ((length_encode_node member).trans_lt size) back
    omega
  · obtain ⟨t, member⟩ := List.exists_mem_of_ne_nil _ nonempty
    exact (Tensor.codec_wellFormed.read_of_eachNested
      (by simp [codec, toMessage_eq]) size held.initializers member).1
  · obtain ⟨v, member⟩ := List.exists_mem_of_ne_nil _ nonempty
    exact (ValueInfo.codec_wellFormed.read_of_eachNested
      (by simp [codec, toMessage_eq]) size held.inputs member).1
  · obtain ⟨v, member⟩ := List.exists_mem_of_ne_nil _ nonempty
    exact (ValueInfo.codec_wellFormed.read_of_eachNested
      (by simp [codec, toMessage_eq]) size held.outputs member).1

/-- Whether what is read back with so many levels nests no deeper. -/
structure Limited (levels : Nat) : Prop where
  attributes (a b : Attribute) : (Attribute.codec.encode a).length < 2 ^ 64 →
    Attribute.ofMessage? levels a.toMessage = some b → a.depth ≤ levels
  nodes (n b : Node) : (Node.codec.encode n).length < 2 ^ 64 →
    Node.ofMessage? levels n.toMessage = some b → n.depth ≤ levels
  graphs (g b : Graph) : (Graph.codec.encode g).length < 2 ^ 64 →
    Graph.ofMessage? levels g.toMessage = some b → g.depth ≤ levels

theorem limited (levels : Nat) : Limited levels := by
  induction levels with
  | zero =>
    have never {p : Prop} (h : 0 < 0) : p := absurd h (Nat.lt_irrefl 0)
    constructor
    · intro a b
      exact Attribute.depth_le_of_read never
    · intro n b
      exact Node.depth_le_of_read never
    · intro g b
      exact Graph.depth_le_of_read never
  | succ levels ih =>
    constructor
    · intro a b small done
      refine Attribute.depth_le_of_read ?_ small done
      intro _
      exact ih.graphs
    · intro n b small done
      refine Node.depth_le_of_read ?_ small done
      intro _
      exact ih.attributes
    · intro g b small done
      refine Graph.depth_le_of_read ?_ small done
      intro _
      exact ih.nodes

/-- The bytes that are written for a model are read exactly if it does not nest too deep. -/
theorem Model.decode?_encode_iff {x : Model} (size : (codec.encode x).length < 2 ^ 64) :
    (∃ y, codec.decode? (codec.encode x) = some y) ↔ x.depth ≤ nestingLimit := by
  constructor
  · rintro ⟨y, decoded⟩
    have declared := codec_wellFormed.readDeclared_encode size nestingLimit
    simp only [Codec.decode?, declared] at decoded
    have held := ofMessage?_eq_some_iff.mp decoded
    refine depth_le_iff.mpr ⟨fun g member => ?_, fun _ => by decide⟩
    obtain ⟨_, b, back⟩ := Graph.codec_wellFormed.read_of_oneNested
      (by simp [codec, toMessage_eq]) size held.graph member
    have small := (length_encode_graph member).trans_lt size
    exact Nat.succ_le_succ ((limited (nestingLimit - 1)).graphs g b small back)
  · exact fun deep => ⟨_, decode?_encode deep size⟩

end OperatorGraph.Onnx
