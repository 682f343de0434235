import Mathlib.Data.Fintype.Card
import Mathlib.Data.Fintype.Fin
import Mathlib.Data.List.Induction
import Mathlib.Order.WellFounded
import OperatorGraph.Proofs.Graph.Order

/-!
Topological order and cycles. A run goes on until no node is ready. If it has then not taken all of
them, each of the others waits for one of the others, and among finitely many nodes that is a cycle.
-/

namespace OperatorGraph

namespace Order

variable {dependencies : Dependencies}

/-- The relation that a table of dependencies stands for. -/
def Dependencies.Needs (dependencies : Dependencies) (v u : Nat) : Prop :=
  ∃ ds, dependencies[v]? = some ds ∧ u ∈ ds

theorem releaseAll_order (ids : List Nat) (p : Progress) :
    (ids.foldl release p).order = p.order := by
  induction ids generalizing p with
  | nil => rfl
  | cons id rest ih => simp [ih]

theorem step_order_length {p : Progress} (waiting : p.ready ≠ []) :
    (step dependencies p).order.length = p.order.length + 1 := by
  unfold step
  split
  · contradiction
  · simp [releaseAll_order]

theorem run_stuck (steps : Nat) {p : Progress} (stuck : p.ready = []) :
    run dependencies steps p = p := by
  induction steps with
  | zero => rfl
  | succ steps ih => simpa [run, step, stuck] using ih

/-- A run takes a node in every step until none is ready. -/
theorem run_length_or_stuck (steps : Nat) (p : Progress) :
    (run dependencies steps p).order.length = p.order.length + steps ∨
      (run dependencies steps p).ready = [] := by
  induction steps generalizing p with
  | zero => exact .inl rfl
  | succ steps ih =>
    by_cases stuck : p.ready = []
    · exact .inr (by simpa [run_stuck (steps + 1) stuck] using stuck)
    · have one : (step dependencies p).order.length = p.order.length + 1 :=
        step_order_length stuck
      rcases ih (step dependencies p) with full | empty
      · exact .inl (by simp only [run, full, one]; omega)
      · exact .inr empty

theorem Invariant.perm {p : Progress} (h : Invariant dependencies p)
    (all : ∀ v < dependencies.length, v ∈ p.order) :
    p.order.Perm (List.range dependencies.length) := by
  have within : p.order ⊆ List.range dependencies.length := fun v taken =>
    List.mem_range.mpr (h.bounded taken)
  have covered : List.range dependencies.length ⊆ p.order := fun v member =>
    all v (List.mem_range.mp member)
  exact (List.subperm_of_subset h.nodup within).antisymm
    (List.subperm_of_subset List.nodup_range covered)

/-- In progress that is stuck, what has not been taken needs something that has not been taken. -/
theorem Invariant.exists_untaken {p : Progress} (h : Invariant dependencies p)
    (stuck : p.ready = []) {v : Nat} (bound : v < dependencies.length) (untaken : v ∉ p.order) :
    ∃ u, dependencies.Needs v u ∧ u ∉ p.order := by
  by_contra none
  have ready : v ∈ p.ready := by
    refine (h.ready v).mpr ⟨untaken, dependencies[v], by simp [bound], fun u needed => ?_⟩
    by_contra missing
    exact none ⟨u, ⟨dependencies[v], by simp [bound], needed⟩, missing⟩
  simp [stuck] at ready

/-- If every node of a nonempty set needs one of the set, some node needs itself in the end. -/
theorem exists_cycle (wellFormed : dependencies.WellFormed) {untaken : Nat → Prop}
    (next : ∀ v < dependencies.length, untaken v → ∃ u, dependencies.Needs v u ∧ untaken u)
    {v : Nat} (bound : v < dependencies.length) (start : untaken v) :
    ∃ u, Relation.TransGen dependencies.Needs u u := by
  by_contra acyclic
  let below (u v : Fin dependencies.length) : Prop :=
    Relation.TransGen dependencies.Needs v.val u.val
  have transitive : IsTrans _ below := ⟨fun _ _ _ first second => second.trans first⟩
  have irreflexive : Std.Irrefl below := ⟨fun u cycle => acyclic ⟨u, cycle⟩⟩
  have wellFounded : WellFounded below := Finite.wellFounded_of_trans_of_irrefl below
  obtain ⟨least, here, minimal⟩ :=
    wellFounded.has_min {u : Fin dependencies.length | untaken u.val} ⟨⟨v, bound⟩, start⟩
  obtain ⟨u, needed, there⟩ := next least.val least.isLt here
  obtain ⟨ds, found, member⟩ := needed
  have inside := wellFormed.bounded ds (List.mem_of_getElem? found) u member
  exact minimal ⟨u, inside⟩ there (.single ⟨ds, found, member⟩)

/-- A node stands after those it needs. -/
theorem Invariant.idxOf_lt {p : Progress} (h : Invariant dependencies p) {v u : Nat}
    (taken : v ∈ p.order) (needed : dependencies.Needs v u) :
    p.order.idxOf u < p.order.idxOf v := by
  obtain ⟨before, rest, split⟩ := List.append_of_mem taken
  obtain ⟨ds, found, earlier⟩ := h.after before v rest split
  obtain ⟨ds', found', member⟩ := needed
  cases found.symm.trans found'
  have nodup := h.nodup
  simp only [split, List.nodup_append, List.nodup_cons, List.mem_cons] at nodup
  have apart : v ∉ before := fun twice => nodup.2.2 v twice v (.inl rfl) rfl
  have first : (before ++ v :: rest).idxOf v = before.length := by
    simp [List.idxOf_append, apart]
  have ahead := List.idxOf_lt_length_of_mem (earlier u member)
  simpa [split, first, List.idxOf_append, earlier u member] using ahead

end Order

namespace Graph

open OperatorGraph.Order

/-- Whether a node outputs a name and no later one does. -/
def LastProducer (g : Graph) (name : String) (u : Nat) : Prop :=
  (∃ node, g.nodes[u]? = some node ∧ name ∈ node.outputs) ∧
    ∀ w node, u < w → g.nodes[w]? = some node → name ∉ node.outputs

/-- Whether a node has an input of which another one, or itself, is the last producer. -/
def DependsOn (g : Graph) (v u : Nat) : Prop :=
  ∃ node, g.nodes[v]? = some node ∧ ∃ name ∈ node.inputs, g.LastProducer name u

theorem LastProducer.bound {g : Graph} {name : String} {u : Nat} (h : g.LastProducer name u) :
    u < g.nodes.length := by
  obtain ⟨node, found, _⟩ := h.1
  exact (List.getElem?_eq_some_iff.mp found).1

/-- One more node at the end is the last producer of what it outputs. -/
theorem lastProducer_addNode {g : Graph} {node : Node} {name : String} {u : Nat} :
    (g.addNode node).LastProducer name u ↔
      if name ∈ node.outputs then u = g.nodes.length else g.LastProducer name u := by
  have old : ∀ {w : Nat}, w < g.nodes.length → (g.addNode node).nodes[w]? = g.nodes[w]? :=
    fun bound => List.getElem?_append_left bound
  have last : (g.addNode node).nodes[g.nodes.length]? = some node := by simp [addNode]
  split
  · rename_i outputs
    constructor
    · rintro h
      have bound := h.bound
      by_contra other
      refine h.2 g.nodes.length node ?_ last outputs
      simp [addNode] at bound
      omega
    · rintro rfl
      refine ⟨⟨node, last, outputs⟩, fun w later above found => ?_⟩
      have bound := (List.getElem?_eq_some_iff.mp found).1
      simp [addNode] at bound
      omega
  · rename_i silent
    constructor
    · rintro ⟨⟨producer, found, outputs⟩, final⟩
      have bound := (List.getElem?_eq_some_iff.mp found).1
      have here : u < g.nodes.length := by
        by_contra beyond
        have same : u = g.nodes.length := by simp [addNode] at bound; omega
        subst same
        cases last.symm.trans found
        exact silent outputs
      refine ⟨⟨producer, (old here).symm.trans found, outputs⟩, fun w later above held => ?_⟩
      have within := (List.getElem?_eq_some_iff.mp held).1
      exact final w later above ((old within).trans held)
    · intro h
      obtain ⟨producer, found, outputs⟩ := h.1
      refine ⟨⟨producer, (old h.bound).trans found, outputs⟩, fun w later above held => ?_⟩
      by_cases within : w < g.nodes.length
      · exact h.2 w later above ((old within).symm.trans held)
      · have bound := (List.getElem?_eq_some_iff.mp held).1
        have same : w = g.nodes.length := by simp [addNode] at bound; omega
        subst same
        cases last.symm.trans held
        exact silent

theorem producer?_addNode (g : Graph) (node : Node) (name : String) :
    (g.addNode node).producer? name =
      if name ∈ node.outputs then some g.nodes.length else g.producer? name := by
  by_cases outputs : name ∈ node.outputs
  · simp [producer?, addNode, List.zipIdx_append, List.filter_append, outputs]
  · simp [producer?, addNode, List.zipIdx_append, List.filter_append, outputs]

theorem producer?_eq_some_iff {g : Graph} {name : String} {u : Nat} :
    g.producer? name = some u ↔ g.LastProducer name u := by
  obtain ⟨graphName, opsets, inputs, outputs, nodes⟩ := g
  induction nodes using List.reverseRecOn with
  | nil => simp [producer?, LastProducer]
  | append_singleton nodes node ih =>
    let earlier : Graph := ⟨graphName, opsets, inputs, outputs, nodes⟩
    change (earlier.addNode node).producer? name = some u ↔
      (earlier.addNode node).LastProducer name u
    simp only [producer?_addNode, lastProducer_addNode]
    split
    · simp [eq_comm]
    · exact ih

theorem needs_dependencies_iff {g : Graph} {v u : Nat} :
    g.dependencies.Needs v u ↔ g.DependsOn v u := by
  constructor
  · rintro ⟨ds, found, member⟩
    obtain ⟨node, held, rfl⟩ := Option.map_eq_some_iff.mp (List.getElem?_map .. ▸ found)
    obtain ⟨_, produced⟩ := List.mem_filter.mp member
    obtain ⟨name, input, last⟩ := List.mem_filterMap.mp (List.contains_iff_mem.mp produced)
    exact ⟨node, held, name, input, producer?_eq_some_iff.mp last⟩
  · rintro ⟨node, held, name, input, last⟩
    refine ⟨g.dependenciesOf node, by simp [dependencies, held], List.mem_filter.mpr ⟨?_, ?_⟩⟩
    · exact List.mem_range.mpr last.bound
    · exact List.contains_iff_mem.mpr
        (List.mem_filterMap.mpr ⟨name, input, producer?_eq_some_iff.mpr last⟩)

theorem needs_dependencies (g : Graph) : g.dependencies.Needs = g.DependsOn :=
  funext fun _ => funext fun _ => propext needs_dependencies_iff

/-- In an order that is returned, every node stands after those it depends on. -/
theorem idxOf_lt_of_dependsOn {g : Graph} {ids : List Nat} (h : g.topologicalOrder? = some ids)
    {v u : Nat} (depends : g.DependsOn v u) : ids.idxOf u < ids.idxOf v := by
  have all := topologicalOrder?_perm h
  have taken : v ∈ ids := by
    obtain ⟨node, held, _⟩ := depends
    simpa [all.mem_iff] using (List.getElem?_eq_some_iff.mp held).1
  simp only [topologicalOrder?] at h
  split at h
  · cases Option.some.inj h
    exact g.finished_invariant.idxOf_lt taken (needs_dependencies_iff.mpr depends)
  · contradiction

/-- A run that ends before all nodes have been taken leaves a cycle. -/
theorem exists_cycle_of_none {g : Graph} (h : g.topologicalOrder? = none) :
    ∃ v, Relation.TransGen g.DependsOn v v := by
  have invariant := g.finished_invariant
  have size : g.dependencies.length = g.nodes.length := by simp [dependencies]
  have unfinished : (run g.dependencies g.nodes.length (start g.dependencies)).order.length ≠
      g.nodes.length := by simpa [topologicalOrder?] using h
  generalize finished_is : run g.dependencies g.nodes.length (start g.dependencies) = finished
    at invariant unfinished
  have stuck : finished.ready = [] := by
    have ended : finished.order.length = _ ∨ finished.ready = [] :=
      finished_is ▸ run_length_or_stuck g.nodes.length (start g.dependencies)
    exact ended.resolve_left fun full => unfinished (by simpa [start] using full)
  obtain ⟨v, bound, untaken⟩ : ∃ v < g.dependencies.length, v ∉ finished.order := by
    by_contra all
    push Not at all
    exact unfinished (by simpa [size] using (invariant.perm all).length_eq)
  rw [← needs_dependencies]
  exact exists_cycle g.dependencies_wellFormed
    (fun w bound untaken => invariant.exists_untaken stuck bound untaken) bound untaken

/-- There is no order exactly if some node depends on itself in the end; an order that there is has
every node once, after those that it depends on. -/
theorem topologicalOrder?_spec (g : Graph) :
    (g.topologicalOrder? = none ↔ ∃ v, Relation.TransGen g.DependsOn v v) ∧
      ∀ ids, g.topologicalOrder? = some ids → ids.Perm (List.range g.nodes.length) ∧
        ∀ v u, g.DependsOn v u → ids.idxOf u < ids.idxOf v := by
  refine ⟨⟨exists_cycle_of_none, ?_⟩, fun ids ordered => ?_⟩
  · rintro ⟨v, cycle⟩
    cases ordered : g.topologicalOrder? with
    | none => rfl
    | some ids =>
      have before : ∀ {w u}, Relation.TransGen g.DependsOn w u → ids.idxOf u < ids.idxOf w := by
        intro w u path
        induction path with
        | single depends => exact idxOf_lt_of_dependsOn ordered depends
        | tail _ depends ih => exact (idxOf_lt_of_dependsOn ordered depends).trans ih
      exact absurd (before cycle) (Nat.lt_irrefl _)
  · exact ⟨topologicalOrder?_perm ordered, fun v u => idxOf_lt_of_dependsOn ordered⟩

/-- The consumer was inserted first; a third node that nothing ties to them keeps its place. -/
example :
    let g : Graph :=
      { nodes :=
          [{ opType := "Relu", inputs := ["b"], outputs := ["c"] },
            { opType := "Relu", inputs := ["a"], outputs := ["b"] },
            { opType := "Relu", inputs := ["x"], outputs := ["y"] }] }
    g.topologicalOrder? = some [1, 0, 2] := by decide

end Graph

end OperatorGraph
