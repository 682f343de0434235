import Mathlib.Data.List.Perm.Basic
import OperatorGraph.Normalize
import OperatorGraph.Proofs.Graph.Order

/-!
The walk of a normalization as a pointwise map. Every node is visited once, in whatever order, and
becomes what its extender makes of the original node alone; nothing else changes.
-/

namespace OperatorGraph

open Attribute (Fault)

/-- The ids of a graph in the order of a walk: as the nodes were inserted, or producers before
consumers unless there is a cycle. -/
def WalkOrder.ids (g : Graph) : WalkOrder → List Nat
  | .insertion => List.range g.nodes.length
  | .topological => g.topologicalOrder?.getD (List.range g.nodes.length)

namespace Registry

variable (registry : Registry)

/-- Whether a node is given to an extender. -/
def handles (node : Node) : Bool := (registry.lookup node.opType).isSome

/-- What its extender makes of a node alone. -/
def extendNode (node : Node) : Node :=
  match registry.lookup node.opType with
  | none => node
  | some extender => { node with attributes := (extender.extend node).attributes }

def faultsOf (node : Node) : List Fault :=
  match registry.lookup node.opType with
  | none => []
  | some extender => (extender.extend node).faults

/-- The diagnostics of the node with an id: one for each fault that its extender reports, in the
same order, with the id, the name and the operator type of the node. -/
def diagnosticsAt (g : Graph) (id : Nat) : List Diagnostic :=
  match g.node? id with
  | none => []
  | some node =>
    (registry.faultsOf node).map fun fault =>
      { node := id, nodeName := node.name, opType := node.opType, fault }

theorem extendNode_attributes_eq (node : Node) :
    { node with attributes := (registry.extendNode node).attributes } =
      registry.extendNode node := by
  unfold extendNode
  split <;> rfl

@[simp] theorem extendNode_opType (node : Node) :
    (registry.extendNode node).opType = node.opType := by
  unfold extendNode
  split <;> rfl

@[simp] theorem extendNode_name (node : Node) : (registry.extendNode node).name = node.name := by
  unfold extendNode
  split <;> rfl

@[simp] theorem extendNode_inputs (node : Node) :
    (registry.extendNode node).inputs = node.inputs := by
  unfold extendNode
  split <;> rfl

@[simp] theorem extendNode_outputs (node : Node) :
    (registry.extendNode node).outputs = node.outputs := by
  unfold extendNode
  split <;> rfl

end Registry

namespace Normalize

variable (registry : Registry)

/-- A graph whose nodes with the given ids have been extended. -/
def extendAt (g : Graph) (ids : List Nat) : Graph :=
  { g with
    nodes := g.nodes.mapIdx fun id node => if id ∈ ids then registry.extendNode node else node }

/-- A walk over `g` that has visited the nodes with the given ids, in this order. -/
structure Visited (g : Graph) (ids : List Nat) (w : Walk) : Prop where
  graph : w.graph = extendAt registry g ids
  visited : w.report.visited = ids.length
  extended : w.report.extended = ids.countP fun id => (g.node? id).any registry.handles
  diagnostics : w.report.diagnostics = ids.flatMap (registry.diagnosticsAt g)

theorem extendAt_node? (g : Graph) (ids : List Nat) {id : Nat} (fresh : id ∉ ids) :
    (extendAt registry g ids).node? id = g.node? id := by
  simp only [extendAt, Graph.node?, List.getElem?_mapIdx, if_neg fresh]
  cases g.nodes[id]? <;> rfl

/-- Extending one more node writes the attributes that its extender makes. -/
theorem extendAt_append {g : Graph} {ids : List Nat} {id : Nat} {node : Node} (fresh : id ∉ ids)
    (found : g.node? id = some node) :
    extendAt registry g (ids ++ [id]) =
      (extendAt registry g ids).setAttributes id (registry.extendNode node).attributes := by
  simp only [extendAt, Graph.setAttributes, Graph.mk.injEq, true_and]
  apply List.ext_getElem?
  intro v
  simp only [List.getElem?_mapIdx, List.getElem?_modify, List.mem_append, List.mem_singleton]
  by_cases same : v = id
  · subst same
    have at_v : g.nodes[v]? = some node := found
    simp only [at_v, Option.map_some, fresh, or_true, if_true, if_false]
    exact congrArg some (registry.extendNode_attributes_eq node).symm
  · simp only [same, Ne.symm same, or_false, if_false, id_map']

/-- Attributes that are written back change nothing. -/
theorem setAttributes_self {g : Graph} {id : Nat} {node : Node} (found : g.node? id = some node) :
    g.setAttributes id node.attributes = g := by
  have at_id : g.nodes[id]? = some node := found
  have kept : (g.nodes.modify id fun node' => { node' with attributes := node.attributes }) =
      g.nodes := by
    apply List.ext_getElem?
    intro v
    rw [List.getElem?_modify]
    by_cases same : id = v
    · subst same
      simp [at_id]
    · simp [same]
  simp only [Graph.setAttributes, kept]

theorem visit_spec {g : Graph} {ids : List Nat} {w : Walk} (h : Visited registry g ids w) {id : Nat}
    (fresh : id ∉ ids) (bound : id < g.nodes.length) :
    Visited registry g (ids ++ [id]) (visit registry w id) := by
  have found : g.node? id = some g.nodes[id] := List.getElem?_eq_getElem bound
  generalize g.nodes[id] = node at found
  have unvisited : w.graph.node? id = some node := by
    rw [h.graph, extendAt_node? registry g ids fresh, found]
  cases handler : registry.lookup node.opType with
  | none =>
    have skipped : registry.extendNode node = node := by simp only [Registry.extendNode, handler]
    simp only [visit, unvisited, handler]
    refine ⟨?_, ?_, ?_, ?_⟩
    · rw [extendAt_append registry fresh found, skipped, ← h.graph, setAttributes_self unvisited]
    · simp [h.visited]
    · simp [h.extended, found, Registry.handles, handler]
    · simp [h.diagnostics, Registry.diagnosticsAt, found, Registry.faultsOf, handler]
  | some extender =>
    have extended : (registry.extendNode node).attributes = (extender.extend node).attributes := by
      simp only [Registry.extendNode, handler]
    simp only [visit, unvisited, handler]
    refine ⟨?_, ?_, ?_, ?_⟩
    · rw [extendAt_append registry fresh found, extended, h.graph]
    · simp [h.visited]
    · simp [h.extended, found, Registry.handles, handler]
    · simp [h.diagnostics, Registry.diagnosticsAt, found, Registry.faultsOf, handler, diagnose]

theorem walk_spec {g : Graph} (todo : List Nat) {ids : List Nat} {w : Walk}
    (h : Visited registry g ids w) (nodup : (ids ++ todo).Nodup)
    (bounded : ∀ id ∈ todo, id < g.nodes.length) :
    Visited registry g (ids ++ todo) (todo.foldl (visit registry) w) := by
  induction todo generalizing ids w with
  | nil => simpa using h
  | cons id rest ih =>
    rw [List.append_cons] at nodup ⊢
    have fresh : id ∉ ids := fun member =>
      (List.nodup_append.mp (List.nodup_append.mp nodup).1).2.2 id member id (by simp) rfl
    exact ih (visit_spec registry h fresh (bounded id (by simp))) nodup fun v hv =>
      bounded v (List.mem_cons_of_mem id hv)

theorem route_eq_ids (g : Graph) (order : WalkOrder) : (route g order).1 = order.ids g := by
  cases order with
  | insertion => rfl
  | topological =>
    unfold route WalkOrder.ids
    cases g.topologicalOrder? <;> rfl

/-- Whatever the order, every id stands in it once. -/
theorem ids_perm (g : Graph) (order : WalkOrder) :
    (order.ids g).Perm (List.range g.nodes.length) := by
  cases order with
  | insertion => exact .rfl
  | topological =>
    unfold WalkOrder.ids
    cases found : g.topologicalOrder? with
    | none => exact .rfl
    | some ids => exact Graph.topologicalOrder?_perm found

theorem extendAt_all (g : Graph) {ids : List Nat} (all : ids.Perm (List.range g.nodes.length)) :
    extendAt registry g ids = { g with nodes := g.nodes.map registry.extendNode } := by
  simp only [extendAt, Graph.mk.injEq, true_and]
  apply List.ext_getElem?
  intro v
  simp only [List.getElem?_mapIdx, List.getElem?_map]
  cases at_v : g.nodes[v]? with
  | none => rfl
  | some node =>
    have bound : v ∈ ids := all.mem_iff.mpr (by simpa using (List.getElem?_eq_some_iff.mp at_v).1)
    simp [bound]

theorem map_node?_range (g : Graph) :
    (List.range g.nodes.length).map g.node? = g.nodes.map some := by
  apply List.ext_getElem (by simp)
  intro v _ _
  simp [Graph.node?]

/-- Counting ids by their nodes is counting nodes. -/
theorem countP_ids (g : Graph) (p : Node → Bool) {ids : List Nat}
    (all : ids.Perm (List.range g.nodes.length)) :
    (ids.countP fun id => (g.node? id).any p) = g.nodes.countP p := by
  calc (ids.countP fun id => (g.node? id).any p)
      = (List.range g.nodes.length).countP fun id => (g.node? id).any p := all.countP_eq _
    _ = ((List.range g.nodes.length).map g.node?).countP (Option.any p) := by
      rw [List.countP_map]
      rfl
    _ = (g.nodes.map some).countP (Option.any p) := by rw [map_node?_range]
    _ = g.nodes.countP p := by
      rw [List.countP_map]
      rfl

/-- What a run over a graph answers, given the ids in the order of its walk. -/
def answerOf (g : Graph) (ids : List Nat) (strict : Bool) : Except (List Diagnostic) Report :=
  let diagnostics := ids.flatMap (registry.diagnosticsAt g)
  if strict && !diagnostics.isEmpty then .error diagnostics
  else
    .ok
      { visited := g.nodes.length
        extended := g.nodes.countP registry.handles
        diagnostics }

theorem start_visited (g : Graph) (events : List Event) :
    Visited registry g [] { graph := g, events } where
  graph := by
    have kept : g.nodes.mapIdx (fun _ node => node) = g.nodes :=
      List.ext_getElem? fun v => by simp
    simp [extendAt, kept]
  visited := rfl
  extended := rfl
  diagnostics := rfl

theorem ids_visited (g : Graph) (order : WalkOrder) (events : List Event) :
    let ids := order.ids g
    Visited registry g ids (ids.foldl (visit registry) { graph := g, events }) := by
  have all := ids_perm g order
  refine walk_spec registry _ (start_visited registry g events) ?_ fun id member => ?_
  · exact all.nodup_iff.mpr List.nodup_range
  · simpa using all.mem_iff.mp member

theorem run_graph (g : Graph) (config : Config) :
    (run g registry config).graph = { g with nodes := g.nodes.map registry.extendNode } := by
  simp only [run, route_eq_ids]
  exact (ids_visited registry g config.walkOrder _).graph.trans
    (extendAt_all registry g (ids_perm g config.walkOrder))

theorem run_answer (g : Graph) (config : Config) :
    (run g registry config).answer =
      answerOf registry g (config.walkOrder.ids g) config.strict := by
  have all := ids_perm g config.walkOrder
  have walked := ids_visited registry g config.walkOrder (route g config.walkOrder).2
  have visited := walked.visited.trans (all.length_eq.trans List.length_range)
  have extended := walked.extended.trans (countP_ids g registry.handles all)
  simp only [run, route_eq_ids, answerOf, Report.isClean, ← walked.diagnostics, ← extended,
    ← visited]

end Normalize

end OperatorGraph
