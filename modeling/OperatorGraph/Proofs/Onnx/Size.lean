import OperatorGraph.Onnx.Codec
import OperatorGraph.Proofs.Wire.Size

/-!
Messages take as many bytes as are announced for them, whatever is nested in them.
-/

namespace OperatorGraph.Onnx

@[simp] theorem OpsetId.length_write (o : OpsetId) : o.toMessage.write.length = o.size := by
  simp [toMessage, size]

@[simp] theorem ValueInfo.length_write (v : ValueInfo) : v.toMessage.write.length = v.size := by
  simp [toMessage, size]

@[simp] theorem Tensor.length_write (t : Tensor) : t.toMessage.write.length = t.size := by
  simp [toMessage, size, Nat.add_assoc]

mutual

theorem Attribute.length_write : ∀ a : Attribute, a.toMessage.write.length = a.size
  | ⟨_, _, _, _, _, g, _, _, _, _, _⟩ => by
    have graph := optionalGraphBytes_lengths g
    simp [Attribute.toMessage, Attribute.size, graph, Function.comp_def, Nat.add_assoc]

theorem optionalGraphBytes_lengths :
    ∀ g : Option Graph, (optionalGraphBytes g).map List.length = optionalGraphSizes g
  | none => rfl
  | some g => congrArg (· :: []) (Graph.length_write g)

theorem attributesBytes_lengths :
    ∀ attributes : List Attribute,
      (attributesBytes attributes).map List.length = attributesSizes attributes
  | [] => rfl
  | a :: rest => congrArg₂ List.cons (Attribute.length_write a) (attributesBytes_lengths rest)

theorem Node.length_write : ∀ n : Node, n.toMessage.write.length = n.size
  | ⟨_, _, _, _, attributes, _, _⟩ => by
    have each := attributesBytes_lengths attributes
    simp [Node.toMessage, Node.size, each, Nat.add_assoc]

theorem nodesBytes_lengths :
    ∀ nodes : List Node, (nodesBytes nodes).map List.length = nodesSizes nodes
  | [] => rfl
  | n :: rest => congrArg₂ List.cons (Node.length_write n) (nodesBytes_lengths rest)

theorem Graph.length_write : ∀ g : Graph, g.toMessage.write.length = g.size
  | ⟨nodes, _, _, _, _, _⟩ => by
    have each := nodesBytes_lengths nodes
    simp [Graph.toMessage, Graph.size, each, Function.comp_def, Nat.add_assoc]

end

theorem Model.length_write (m : Model) : m.toMessage.write.length = m.size := by
  simp [toMessage, size, Graph.length_write, Function.comp_def, Nat.add_assoc]

end OperatorGraph.Onnx
