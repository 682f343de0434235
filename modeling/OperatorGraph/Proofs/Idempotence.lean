import OperatorGraph.Proofs.Extender.Idempotence
import OperatorGraph.Proofs.Walk

/-!
Normalization a second time. If every extender of a registry leaves what it makes as it is, then so
does a run: the second run gives the same graph, counts and diagnostics.
-/

namespace OperatorGraph

namespace Registry

theorem mem_of_lookup_builtin {opType : String} {e : Extender}
    (h : builtin.lookup opType = some e) : e ∈ Extender.builtins ∧ e.opType = opType := by
  obtain ⟨e', member, same⟩ := List.mem_map.mp (NameMap.mem_of_get?_ofList h)
  cases same
  exact ⟨member, rfl⟩

variable {registry : Registry}

/-- Whether every extender leaves as it is what it made. -/
def Idempotent (registry : Registry) : Prop :=
  ∀ opType e, registry.lookup opType = some e → e.Idempotent

theorem builtin_idempotent : builtin.Idempotent := fun _ e found =>
  Extender.builtins_idempotent e (mem_of_lookup_builtin found).1

theorem extendNode_extendNode (h : registry.Idempotent) (node : Node) :
    registry.extendNode (registry.extendNode node) = registry.extendNode node := by
  cases found : registry.lookup node.opType with
  | none => simp only [extendNode, found]
  | some e =>
    have settled := (h _ e found node).attributes
    simp only [extendNode, found, settled]

theorem faultsOf_extendNode (h : registry.Idempotent) (node : Node) :
    registry.faultsOf (registry.extendNode node) = registry.faultsOf node := by
  cases found : registry.lookup node.opType with
  | none => simp only [extendNode, faultsOf, found]
  | some e =>
    have settled := (h _ e found node).faults
    simp only [extendNode, faultsOf, found, settled]

theorem handles_extendNode (node : Node) :
    registry.handles (registry.extendNode node) = registry.handles node := by
  simp [handles]

end Registry

namespace Normalize

theorem run_run (g : Graph) {registry : Registry} (h : registry.Idempotent) (config : Config) :
    let first := run g registry config
    let second := run first.graph registry config
    second.graph = first.graph ∧ second.answer = first.answer := by
  intro first second
  have extended : first.graph = { g with nodes := g.nodes.map registry.extendNode } :=
    run_graph registry g config
  have order : config.walkOrder.ids first.graph = config.walkOrder.ids g := by
    rw [extended]
    cases config.walkOrder with
    | insertion => simp [WalkOrder.ids]
    | topological =>
      simp only [WalkOrder.ids, Graph.topologicalOrder?_map g registry.extendNode_inputs
        registry.extendNode_outputs, List.length_map]
  have diagnostics : registry.diagnosticsAt first.graph = registry.diagnosticsAt g := by
    funext id
    simp only [extended, Registry.diagnosticsAt, Graph.node?, List.getElem?_map]
    cases g.nodes[id]? with
    | none => rfl
    | some node =>
      simp only [Option.map_some, Registry.faultsOf_extendNode h,
        Registry.extendNode_name, Registry.extendNode_opType]
  constructor
  · have again : second.graph =
        { first.graph with nodes := first.graph.nodes.map registry.extendNode } :=
      run_graph registry first.graph config
    rw [again, extended]
    simp only [List.map_map, Graph.mk.injEq, true_and]
    exact List.map_congr_left fun node _ => Registry.extendNode_extendNode h node
  · have counted : first.graph.nodes.countP registry.handles = g.nodes.countP registry.handles := by
      rw [extended, List.countP_map]
      exact List.countP_congr fun node _ => by simp [Registry.handles_extendNode]
    have length : first.graph.nodes.length = g.nodes.length := by simp [extended]
    have answered : first.answer = _ := run_answer registry g config
    have again : second.answer = _ := run_answer registry first.graph config
    rw [answered, again]
    simp only [answerOf, order, diagnostics, counted, length]

/-- Normalization with the built-in extenders is idempotent: once more it changes no attribute of
any graph, and it answers with the same counts and the same diagnostics in the same order. -/
theorem runBuiltin_runBuiltin (g : Graph) (config : Config) :
    let first := runBuiltin g config
    let second := runBuiltin first.graph config
    second.graph = first.graph ∧ second.answer = first.answer :=
  run_run g Registry.builtin_idempotent config

end Normalize

end OperatorGraph
