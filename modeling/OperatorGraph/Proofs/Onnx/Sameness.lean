import OperatorGraph.Proofs.Graph.Sameness
import OperatorGraph.Proofs.Onnx.RoundTrip

/-!
Sameness of messages: equality, except that floats are compared as numbers and every NaN is the same
as every other. A message that has lost the sign of a zero is still the same.
-/

namespace OperatorGraph.Onnx

open Binary (Number)

mutual

def Attribute.Same : Attribute → Attribute → Prop
  | ⟨name, f, i, s, t, g, floats, ints, strings, docString, type⟩,
    ⟨name', f', i', s', t', g', floats', ints', strings', docString', type'⟩ =>
    name = name' ∧ Number.Same f f' ∧ i = i' ∧ s = s' ∧ t = t' ∧ optionalSame g g' ∧
      List.Forall₂ Number.Same floats floats' ∧ ints = ints' ∧ strings = strings' ∧
      docString = docString' ∧ type = type'
termination_by structural a _ => a
def optionalSame : Option Graph → Option Graph → Prop
  | none, none => True
  | some g, some g' => Graph.Same g g'
  | _, _ => False
termination_by structural a _ => a

def attributesSame : List Attribute → List Attribute → Prop
  | [], [] => True
  | a :: rest, a' :: rest' => Attribute.Same a a' ∧ attributesSame rest rest'
  | _, _ => False
termination_by structural a _ => a

def Node.Same : Node → Node → Prop
  | ⟨inputs, outputs, name, opType, attributes, docString, domain⟩,
    ⟨inputs', outputs', name', opType', attributes', docString', domain'⟩ =>
    inputs = inputs' ∧ outputs = outputs' ∧ name = name' ∧ opType = opType' ∧
      attributesSame attributes attributes' ∧ docString = docString' ∧ domain = domain'
termination_by structural a _ => a

def nodesSame : List Node → List Node → Prop
  | [], [] => True
  | n :: rest, n' :: rest' => Node.Same n n' ∧ nodesSame rest rest'
  | _, _ => False
termination_by structural a _ => a

def Graph.Same : Graph → Graph → Prop
  | ⟨nodes, name, initializers, docString, inputs, outputs⟩,
    ⟨nodes', name', initializers', docString', inputs', outputs'⟩ =>
    nodesSame nodes nodes' ∧ name = name' ∧ initializers = initializers' ∧
      docString = docString' ∧ inputs = inputs' ∧ outputs = outputs'
termination_by structural a _ => a

end

def Model.Same (a b : Model) : Prop :=
  { a with graph := none } = { b with graph := none } ∧ optionalSame a.graph b.graph

theorem same_dropZeroSign (f : Binary32) : Number.Same (if f.isZero then .zero else f) f := by
  split
  · rename_i zero
    have ordinary : f.isNaN = false := by
      have magnitude : f.magnitude = 0 := of_decide_eq_true zero
      simp [Number.isNaN, magnitude]
    exact .inl (Number.agrees_iff.mpr ⟨by decide, ordinary, .inr ⟨by decide, zero⟩⟩)
  · exact .refl f

mutual

theorem Attribute.dropZeroSign_same : ∀ a : Attribute, a.dropZeroSign.Same a
  | ⟨_, f, _, _, _, g, floats, _, _, _, _⟩ => by
    have floats_same := List.forall₂_same.mpr fun x (_ : x ∈ floats) => Number.Same.refl x
    exact ⟨rfl, same_dropZeroSign f, rfl, rfl, rfl, optionalDropZeroSign_same g, floats_same, rfl,
      rfl, rfl, rfl⟩

theorem optionalDropZeroSign_same : ∀ g : Option Graph, optionalSame (optionalDropZeroSign g) g
  | none => trivial
  | some g => Graph.dropZeroSign_same g

theorem attributesDropZeroSign_same :
    ∀ attributes : List Attribute, attributesSame (attributesDropZeroSign attributes) attributes
  | [] => trivial
  | a :: rest => ⟨Attribute.dropZeroSign_same a, attributesDropZeroSign_same rest⟩

theorem Node.dropZeroSign_same : ∀ n : Node, n.dropZeroSign.Same n
  | ⟨_, _, _, _, attributes, _, _⟩ =>
    ⟨rfl, rfl, rfl, rfl, attributesDropZeroSign_same attributes, rfl, rfl⟩

theorem nodesDropZeroSign_same : ∀ nodes : List Node, nodesSame (nodesDropZeroSign nodes) nodes
  | [] => trivial
  | n :: rest => ⟨Node.dropZeroSign_same n, nodesDropZeroSign_same rest⟩

theorem Graph.dropZeroSign_same : ∀ g : Graph, g.dropZeroSign.Same g
  | ⟨nodes, _, _, _, _, _⟩ => ⟨nodesDropZeroSign_same nodes, rfl, rfl, rfl, rfl, rfl⟩

end

theorem Model.dropZeroSign_same (x : Model) : x.dropZeroSign.Same x := by
  refine ⟨rfl, ?_⟩
  rw [dropZeroSign, ← optionalDropZeroSign_eq]
  exact optionalDropZeroSign_same x.graph

end OperatorGraph.Onnx
