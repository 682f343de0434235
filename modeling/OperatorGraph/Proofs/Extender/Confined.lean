import OperatorGraph.Proofs.Extender.Payload

/-!
Extenders keep to themselves. A built-in extender changes no attribute but those of its operator
type, and of a node it sees nothing else; one of them also looks at the first output slot.
-/

namespace OperatorGraph

namespace Extender

open Attribute (Fault Store)

namespace Rule

variable {node node' : Node}

/-- Whether what a rule does may depend on the outputs of a node. -/
def seesOutputs : Rule → Bool
  | flagUnusedOutput _ => true
  | _ => false

/-- Other rules see nothing but the attributes. -/
theorem apply_eq_of_seesOutputs {r : Rule} (h : r.seesOutputs = false) :
    r.apply node = r.apply node' := by
  funext store
  cases r with
  | flagUnusedOutput name => cases h
  | _ => rfl

theorem apply_agree_of_seen {r : Rule} {names : List String} {a b : Store} (h : AgreeOn names a b)
    (touched : ∀ name ∈ r.reads, name ∈ names)
    (outputs : r.seesOutputs = true →
      (node.outputs.head? = some "" ↔ node'.outputs.head? = some "")) :
    OutcomesAgree names (r.apply node a) (r.apply node' b) := by
  cases seen : r.seesOutputs with
  | true => exact apply_agree r h touched (outputs seen)
  | false =>
    rw [apply_eq_of_seesOutputs seen]
    exact apply_agree r h touched Iff.rfl

/-- Nodes that look the same to all of some rules fare the same. -/
theorem applyAll_agree {rules : List Rule} {names : List String} {a b : Store}
    (h : AgreeOn names a b) (touched : ∀ r ∈ rules, ∀ name ∈ r.reads, name ∈ names)
    (outputs : ∀ r ∈ rules, r.seesOutputs = true →
      (node.outputs.head? = some "" ↔ node'.outputs.head? = some "")) :
    OutcomesAgree names (applyAll node rules a) (applyAll node' rules b) := by
  induction rules generalizing a b with
  | nil => exact ⟨rfl, h⟩
  | cons r rest ih =>
    have first : OutcomesAgree names (r.apply node a) (r.apply node' b) :=
      apply_agree_of_seen h (touched r List.mem_cons_self) (outputs r List.mem_cons_self)
    have others := ih first.attributes
      (fun later member => touched later (List.mem_cons_of_mem r member))
      (fun later member => outputs later (List.mem_cons_of_mem r member))
    rw [applyAll_cons, applyAll_cons]
    exact ⟨congrArg₂ (· ++ ·) first.faults others.faults, others.attributes⟩

end Rule

/-- The attributes that belong to an operator type: those that are normalized, the names of element
types and where they are put, and those that are written in place of what stands there. -/
def ownNames (opType : String) : List String :=
  (documented.flatMap fun d => if d.opTypes.contains opType then d.names else []) ++
    (documentedTypes.flatMap fun t =>
      if t.opTypes.contains opType then [t.source, t.target] else []) ++
    derivedNames opType ++
    if opType = "ReorgYolo" then ["stride"] else []

/-- Built-in rules touch attributes of their own operator type only. -/
theorem builtinRules_ownNames : ∀ s ∈ builtinRules,
    (∀ r ∈ s.rules, ∀ name ∈ r.names, name ∈ ownNames s.opType) ∧
    ∀ r ∈ s.rules, r.seesOutputs = true → s.opType = "TopK" := by
  decide +kernel

/-- A node after an extender has run on it. -/
def extended (e : Extender) (node : Node) : Node :=
  { node with attributes := (e.extend node).attributes }

/-- Whether nodes look the same to the extender of an operator type. -/
structure LookAlike (opType : String) (a b : Node) : Prop where
  attributes : AgreeOn (ownNames opType) a.attributes b.attributes
  outputs : opType = "TopK" → (a.outputs.head? = some "" ↔ b.outputs.head? = some "")

/-- Whatever the node, a built-in extender leaves all but the attributes of its own as it is. Nodes
that differ in nothing that it looks at come out alike in its attributes, with the same faults in
the same order. -/
theorem builtins_confined : ∀ e ∈ builtins,
    (∀ node, { e.extended node with attributes := node.attributes } = node ∧
      ∀ name, name ∉ ownNames e.opType →
        (e.extended node).attributes.get? name = node.attributes.get? name) ∧
    ∀ a b, LookAlike e.opType a b →
      AgreeOn (ownNames e.opType) (e.extended a).attributes (e.extended b).attributes ∧
      (e.extend a).faults = (e.extend b).faults := by
  intro e member
  obtain ⟨s, listed, rfl⟩ := mem_builtins_iff.mp member
  obtain ⟨own, outputs⟩ := builtinRules_ownNames s listed
  constructor
  · intro node
    refine ⟨rfl, fun name foreign => ?_⟩
    exact Rule.applyAll_frame _ fun r inside written =>
      foreign (own r inside name (List.mem_append_right _ written))
  · intro a b alike
    have agree : OutcomesAgree (ownNames s.opType) (s.extender.extend a) (s.extender.extend b) :=
      Rule.applyAll_agree alike.attributes
        (fun r inside name read => own r inside name (List.mem_append_left _ read))
        (fun r inside sees => alike.outputs (outputs r inside sees))
    exact ⟨agree.attributes, agree.faults⟩

/-- Two nodes with an axis that cannot be read and an unused first output, and with little else in
common. -/
theorem builtins_confined_topK :
    let a : Node :=
      { opType := "TopK"
        outputs := ["", "indices"]
        attributes := .ofList [("axis", .text "x"), ("k", .int 1)] }
    let b : Node :=
      { opType := "Add"
        name := some "sum"
        domain := "ai.onnx"
        inputs := ["x", "y"]
        outputs := [""]
        attributes := .ofList [("axis", .text "x"), ("mode", .text "max")] }
    topK.extender ∈ builtins ∧ LookAlike "TopK" a b ∧
      (topK.extender.extended a).attributes.get? "k" = a.attributes.get? "k" ∧
      AgreeOn (ownNames "TopK") (topK.extender.extended a).attributes
        (topK.extender.extended b).attributes ∧
      (topK.extender.extend a).faults = (topK.extender.extend b).faults := by
  intro a b
  have member : topK.extender ∈ builtins := topK.extender_mem_builtins (by simp [builtinRules])
  have same : ∀ name ∈ ownNames "TopK", a.attributes.get? name = b.attributes.get? name := by
    decide +kernel
  have alike : LookAlike "TopK" a b := ⟨same, fun _ => iff_of_true rfl rfl⟩
  obtain ⟨kept, agree⟩ := builtins_confined topK.extender member
  obtain ⟨attributes, faults⟩ := agree a b alike
  exact ⟨member, alike, (kept a).2 "k" (by decide +kernel), attributes, faults⟩

end Extender

end OperatorGraph
