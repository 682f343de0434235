import OperatorGraph.Proofs.Graph.LeastOrder

/-!
Unused slots in the topological order. A slot is left unused by giving it the empty name, and the
order takes that for a name like any other: whoever has an unused input waits for the last node that
has an unused output. Main statement: the order is that of the graph without its unused slots exactly
if the latter happens to have all these nodes after that one.
-/

namespace OperatorGraph

def usedNames (names : List String) : List String := names.filter (· ≠ "")

def Node.withoutUnusedSlots (node : Node) : Node :=
  { node with inputs := usedNames node.inputs, outputs := usedNames node.outputs }

theorem mem_usedNames {name : String} {names : List String} :
    name ∈ usedNames names ↔ name ∈ names ∧ name ≠ "" := by
  simp [usedNames]

namespace Graph

open OperatorGraph.Order

variable {g : Graph}

/-- Every node keeps its place. -/
def withoutUnusedSlots (g : Graph) : Graph :=
  { g with nodes := g.nodes.map Node.withoutUnusedSlots }

/-- Whether a node has an unused input and another one, or itself, is the last with an unused
output. -/
def JoinsUnused (g : Graph) (v u : Nat) : Prop :=
  ∃ node, g.nodes[v]? = some node ∧ "" ∈ node.inputs ∧ g.LastProducer "" u

theorem node?_withoutUnusedSlots {v : Nat} {pruned : Node} :
    g.withoutUnusedSlots.nodes[v]? = some pruned ↔
      ∃ node, g.nodes[v]? = some node ∧ node.withoutUnusedSlots = pruned := by
  simp [withoutUnusedSlots]

theorem lastProducer_withoutUnusedSlots {name : String} (used : name ≠ "") {u : Nat} :
    g.withoutUnusedSlots.LastProducer name u ↔ g.LastProducer name u := by
  have outputs (node : Node) : name ∈ node.withoutUnusedSlots.outputs ↔ name ∈ node.outputs := by
    simp [Node.withoutUnusedSlots, mem_usedNames, used]
  constructor
  · rintro ⟨⟨_, found, produces⟩, last⟩
    obtain ⟨node, held, rfl⟩ := node?_withoutUnusedSlots.mp found
    refine ⟨⟨node, held, (outputs node).mp produces⟩, fun w later above at_w produced => ?_⟩
    exact last w _ above (node?_withoutUnusedSlots.mpr ⟨later, at_w, rfl⟩)
      ((outputs later).mpr produced)
  · rintro ⟨⟨node, held, produces⟩, last⟩
    refine ⟨⟨_, node?_withoutUnusedSlots.mpr ⟨node, held, rfl⟩, (outputs node).mpr produces⟩, ?_⟩
    rintro w _ above at_w produced
    obtain ⟨later, held', rfl⟩ := node?_withoutUnusedSlots.mp at_w
    exact last w later above held' ((outputs later).mp produced)

theorem dependsOn_withoutUnusedSlots {v u : Nat} :
    g.withoutUnusedSlots.DependsOn v u ↔
      ∃ node, g.nodes[v]? = some node ∧ ∃ name ∈ node.inputs, name ≠ "" ∧ g.LastProducer name u := by
  constructor
  · rintro ⟨_, found, name, input, last⟩
    obtain ⟨node, held, rfl⟩ := node?_withoutUnusedSlots.mp found
    obtain ⟨listed, used⟩ := mem_usedNames.mp input
    exact ⟨node, held, name, listed, used, (lastProducer_withoutUnusedSlots used).mp last⟩
  · rintro ⟨node, held, name, listed, used, last⟩
    exact ⟨_, node?_withoutUnusedSlots.mpr ⟨node, held, rfl⟩, name,
      mem_usedNames.mpr ⟨listed, used⟩, (lastProducer_withoutUnusedSlots used).mpr last⟩

/-- Unused slots are edges like others, all of one name. -/
theorem dependsOn_iff_joinsUnused {v u : Nat} :
    g.DependsOn v u ↔ g.withoutUnusedSlots.DependsOn v u ∨ g.JoinsUnused v u := by
  rw [dependsOn_withoutUnusedSlots]
  constructor
  · rintro ⟨node, held, name, input, last⟩
    by_cases used : name = ""
    · subst used
      exact .inr ⟨node, held, input, last⟩
    · exact .inl ⟨node, held, name, input, used, last⟩
  · rintro (⟨node, held, name, input, _, last⟩ | ⟨node, held, input, last⟩)
    · exact ⟨node, held, name, input, last⟩
    · exact ⟨node, held, "", input, last⟩

theorem mem_orders_iff_joinsUnused {ids : List Nat} :
    ids ∈ g.orders ↔ ids ∈ g.withoutUnusedSlots.orders ∧
      ∀ v u, g.JoinsUnused v u → ids.idxOf u < ids.idxOf v := by
  have size : g.withoutUnusedSlots.nodes.length = g.nodes.length := by simp [withoutUnusedSlots]
  constructor
  · rintro ⟨perm, after⟩
    have used v u depends := after v u (dependsOn_iff_joinsUnused.mpr (.inl depends))
    have joined v u joins := after v u (dependsOn_iff_joinsUnused.mpr (.inr joins))
    exact ⟨⟨size ▸ perm, used⟩, joined⟩
  · rintro ⟨⟨perm, used⟩, joined⟩
    refine ⟨size ▸ perm, fun v u depends => ?_⟩
    exact (dependsOn_iff_joinsUnused.mp depends).elim (used v u) (joined v u)

/-- Unused slots do not matter to the order exactly if, in the one without them, the last node with
an unused output stands before all nodes with an unused input. -/
theorem topologicalOrder?_withoutUnusedSlots_iff (g : Graph) :
    g.topologicalOrder? = g.withoutUnusedSlots.topologicalOrder? ↔
      ∀ ids, g.withoutUnusedSlots.topologicalOrder? = some ids →
        ∀ v u, g.JoinsUnused v u → ids.idxOf u < ids.idxOf v := by
  constructor
  · intro same ids ordered
    exact (mem_orders_iff_joinsUnused.mp
      (mem_orders_of_topologicalOrder? (same.trans ordered))).2
  · intro joined
    cases without : g.withoutUnusedSlots.topologicalOrder? with
    | none =>
      cases ordered : g.topologicalOrder? with
      | none => rfl
      | some ids =>
        have member := (mem_orders_iff_joinsUnused.mp (mem_orders_of_topologicalOrder? ordered)).1
        obtain ⟨other, found⟩ := exists_topologicalOrder? member
        cases without.symm.trans found
    | some ids =>
      have member : ids ∈ g.orders := mem_orders_iff_joinsUnused.mpr
        ⟨mem_orders_of_topologicalOrder? without, joined ids without⟩
      obtain ⟨other, ordered⟩ := exists_topologicalOrder? member
      have pruned := (mem_orders_iff_joinsUnused.mp (mem_orders_of_topologicalOrder? ordered)).1
      rw [ordered, le_antisymm (topologicalOrder?_le ordered member)
        (topologicalOrder?_le without pruned)]

/-- A node without its optional input and a later one that has no use for its first output make a
cycle, which they do not without these slots. -/
theorem not_topologicalOrder?_withoutUnusedSlots :
    ¬∀ g : Graph, g.topologicalOrder? = g.withoutUnusedSlots.topologicalOrder? := by
  intro same
  let g : Graph :=
    { nodes :=
        [{ opType := "Clip", inputs := ["x", ""], outputs := ["c"] },
          { opType := "TopK", inputs := ["c", "k"], outputs := ["", "i"] }] }
  have cyclic : g.topologicalOrder? = none := by decide
  have ordered : g.withoutUnusedSlots.topologicalOrder? = some [0, 1] := by decide
  cases cyclic.symm.trans ((same g).trans ordered)

end Graph

end OperatorGraph
