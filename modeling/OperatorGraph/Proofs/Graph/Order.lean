import Mathlib.Data.List.Nodup
import Mathlib.Data.List.Perm.Subperm
import OperatorGraph.Graph.Order

/-!
Progress of the topological order. One invariant says what the counters and the ready nodes stand
for at every step; from it an order that is returned holds every node once.
-/

namespace OperatorGraph

namespace Order

/-- Every node lists its dependencies once, and they are nodes. -/
structure Dependencies.WellFormed (dependencies : Dependencies) : Prop where
  nodup : ∀ ds ∈ dependencies, ds.Nodup
  bounded : ∀ ds ∈ dependencies, ∀ u ∈ ds, u < dependencies.length

/-- The dependencies that have not been taken. -/
def missing (order ds : List Nat) : Nat := ds.countP fun u => decide (u ∉ order)

/-- The counters count the missing dependencies, ready are, in ascending order, the nodes that have
not been taken and miss none, and every node was taken after those it depends on. -/
structure Invariant (dependencies : Dependencies) (p : Progress) : Prop where
  remaining : p.remaining = dependencies.map (missing p.order)
  ascending : p.ready.Pairwise (· < ·)
  ready : ∀ v, v ∈ p.ready ↔ v ∉ p.order ∧ ∃ ds, dependencies[v]? = some ds ∧ ∀ u ∈ ds, u ∈ p.order
  nodup : p.order.Nodup
  after : ∀ before v rest, p.order = before ++ v :: rest →
    ∃ ds, dependencies[v]? = some ds ∧ ∀ u ∈ ds, u ∈ before

/-- Whatever has been taken, its dependencies have been taken too. -/
theorem Invariant.closed {dependencies : Dependencies} {p : Progress}
    (h : Invariant dependencies p) {v : Nat} (taken : v ∈ p.order) {ds : List Nat}
    (at_v : dependencies[v]? = some ds) : ∀ u ∈ ds, u ∈ p.order := by
  obtain ⟨before, rest, split⟩ := List.append_of_mem taken
  obtain ⟨found, at_v', earlier⟩ := h.after before v rest split
  cases at_v.symm.trans at_v'
  intro u hu
  rw [split]
  exact List.mem_append_left _ (earlier u hu)

theorem Invariant.bounded {dependencies : Dependencies} {p : Progress}
    (h : Invariant dependencies p) {v : Nat} (taken : v ∈ p.order) : v < dependencies.length := by
  obtain ⟨before, rest, split⟩ := List.append_of_mem taken
  obtain ⟨ds, at_v, _⟩ := h.after before v rest split
  exact (List.getElem?_eq_some_iff.mp at_v).1

theorem missing_eq_zero_iff {order ds : List Nat} :
    missing order ds = 0 ↔ ∀ u ∈ ds, u ∈ order := by
  simp [missing, List.countP_eq_zero]

/-- Taking a node lowers the count of those that depend on it, by one. -/
theorem missing_append {order ds : List Nat} {id : Nat} (nodup : ds.Nodup) (fresh : id ∉ order) :
    missing (order ++ [id]) ds = if id ∈ ds then missing order ds - 1 else missing order ds := by
  induction ds with
  | nil => simp [missing]
  | cons d rest ih =>
    obtain ⟨apart, tail⟩ := List.nodup_cons.mp nodup
    have ih := ih tail
    simp only [missing, List.countP_cons] at ih ⊢
    by_cases same : id = d
    · subst same
      rw [if_neg apart] at ih
      rw [ih]
      simp [fresh]
    · have kept : (d ∉ order ++ [id]) ↔ d ∉ order := by simp [Ne.symm same]
      simp only [ih, kept, List.mem_cons, same, false_or]
      split
      · rename_i member
        have some_missing : 0 < rest.countP fun u => decide (u ∉ order) :=
          List.countP_pos_iff.mpr ⟨id, member, by simpa using fresh⟩
        omega
      · rfl

theorem mem_enqueue {id v : Nat} {ids : List Nat} : v ∈ enqueue id ids ↔ v = id ∨ v ∈ ids := by
  induction ids with
  | nil => simp [enqueue]
  | cons first rest ih =>
    simp only [enqueue]
    split
    · simp
    · split
      · rename_i same
        simp [same]
      · simp only [List.mem_cons, ih]
        exact or_left_comm

theorem enqueue_ascending {id : Nat} {ids : List Nat} (h : ids.Pairwise (· < ·)) :
    (enqueue id ids).Pairwise (· < ·) := by
  induction ids with
  | nil => simp [enqueue]
  | cons first rest ih =>
    obtain ⟨above, tail⟩ := List.pairwise_cons.mp h
    simp only [enqueue]
    split
    · rename_i below
      refine List.pairwise_cons.mpr ⟨fun v hv => ?_, h⟩
      rcases List.mem_cons.mp hv with rfl | hv
      · exact below
      · exact Nat.lt_trans below (above v hv)
    · split
      · exact h
      · refine List.pairwise_cons.mpr ⟨fun v hv => ?_, ih tail⟩
        rcases mem_enqueue.mp hv with rfl | hv
        · omega
        · exact above v hv

@[simp] theorem release_order (p : Progress) (id : Nat) : (release p id).order = p.order := by
  simp only [release]
  split <;> rfl

theorem release_remaining (p : Progress) (id v : Nat) :
    (release p id).remaining[v]? =
      p.remaining[v]?.map fun count => if v = id then count - 1 else count := by
  have modified : (release p id).remaining = p.remaining.modify id (· - 1) := by
    simp only [release]
    split <;> rfl
  rw [modified, List.getElem?_modify]
  cases p.remaining[v]? <;> simp [eq_comm]

theorem mem_release_ready {p : Progress} {id v : Nat} :
    v ∈ (release p id).ready ↔
      v ∈ p.ready ∨ v = id ∧ (release p id).remaining[id]? = some 0 := by
  simp only [release]
  split
  · rename_i zero
    simp [mem_enqueue, zero, or_comm]
  · rename_i positive
    exact ⟨.inl, fun h => h.resolve_right fun reached => positive reached.2⟩

theorem release_ascending {p : Progress} {id : Nat} (h : p.ready.Pairwise (· < ·)) :
    (release p id).ready.Pairwise (· < ·) := by
  simp only [release]
  split
  · exact enqueue_ascending h
  · exact h

/-- Releasing several nodes counts down for each of them and makes ready those that reach zero. -/
theorem releaseAll (ids : List Nat) (nodup : ids.Nodup) (p : Progress)
    (ascending : p.ready.Pairwise (· < ·)) :
    let q := ids.foldl release p
    q.order = p.order ∧ q.ready.Pairwise (· < ·) ∧
      (∀ v, q.remaining[v]? =
        p.remaining[v]?.map fun count => if v ∈ ids then count - 1 else count) ∧
      ∀ v, v ∈ q.ready ↔ v ∈ p.ready ∨ v ∈ ids ∧ q.remaining[v]? = some 0 := by
  induction ids generalizing p with
  | nil => simp [ascending]
  | cons id rest ih =>
    obtain ⟨apart, tail⟩ := List.nodup_cons.mp nodup
    obtain ⟨order, sorted, counts, ready⟩ := ih tail (release p id) (release_ascending ascending)
    refine ⟨by simpa using order, sorted, fun v => ?_, fun v => ?_⟩
    · rw [List.foldl_cons, counts, release_remaining, Option.map_map]
      refine congrArg (fun f => Option.map f _) (funext fun count => ?_)
      by_cases same : v = id
      · subst same
        simp [apart]
      · simp [same]
    · rw [List.foldl_cons, ready, mem_release_ready]
      by_cases same : v = id
      · subst same
        have settled : (rest.foldl release (release p v)).remaining[v]? =
            (release p v).remaining[v]? := by
          rw [counts]
          simp [apart]
        simp [apart, settled]
      · simp [same]

variable {dependencies : Dependencies}

theorem mem_dependents {id v : Nat} :
    v ∈ dependents dependencies id ↔ ∃ ds, dependencies[v]? = some ds ∧ id ∈ ds := by
  simp only [dependents, List.mem_filter, List.mem_range, List.contains_iff_mem]
  constructor
  · rintro ⟨bound, member⟩
    exact ⟨dependencies[v], by simp [bound], by simpa [List.getD, bound] using member⟩
  · rintro ⟨ds, found, member⟩
    obtain ⟨bound, rfl⟩ := List.getElem?_eq_some_iff.mp found
    exact ⟨bound, by simpa [List.getD, bound] using member⟩

theorem dependents_nodup (id : Nat) : (dependents dependencies id).Nodup :=
  List.nodup_range.filter _

theorem start_invariant (dependencies : Dependencies) :
    Invariant dependencies (start dependencies) where
  remaining := by
    apply List.map_congr_left
    intro ds _
    simp [missing, start]
  ascending := List.pairwise_lt_range.filter _
  ready v := by
    simp only [start, List.mem_filter, List.mem_range, decide_eq_true_eq, List.not_mem_nil,
      not_false_eq_true, true_and]
    constructor
    · rintro ⟨bound, none⟩
      exact ⟨dependencies[v], by simp [bound], by simp_all [List.getD]⟩
    · rintro ⟨ds, found, none⟩
      obtain ⟨bound, rfl⟩ := List.getElem?_eq_some_iff.mp found
      exact ⟨bound, by simpa [List.getD, bound, List.eq_nil_iff_forall_not_mem] using none⟩
  nodup := .nil
  after := by simp [start]

theorem step_invariant (wellFormed : dependencies.WellFormed) {p : Progress}
    (h : Invariant dependencies p) : Invariant dependencies (step dependencies p) := by
  unfold step
  split
  · exact h
  · rename_i id ready next
    obtain ⟨above, ascending⟩ := List.pairwise_cons.mp (next ▸ h.ascending)
    obtain ⟨fresh, found⟩ := (h.ready id).mp (by simp [next])
    have taken : ∀ {ds}, dependencies[id]? = some ds → ∀ u ∈ ds, u ∈ p.order := by
      intro ds at_id
      obtain ⟨ds', at_id', all⟩ := found
      cases at_id.symm.trans at_id'
      exact all
    obtain ⟨order, sorted, counts, enqueued⟩ := releaseAll (dependents dependencies id)
      (dependents_nodup id) { p with ready, order := p.order ++ [id] } ascending
    have remaining : ∀ v : Nat, ((dependents dependencies id).foldl release
        { p with ready, order := p.order ++ [id] }).remaining[v]? =
          dependencies[v]?.map (missing (p.order ++ [id])) := by
      intro v
      rw [counts]
      simp only [h.remaining, List.getElem?_map, mem_dependents, Option.map_map]
      cases at_v : dependencies[v]? with
      | none => rfl
      | some ds =>
        have once := wellFormed.nodup ds (List.mem_of_getElem? at_v)
        simp [missing_append once fresh]
    refine ⟨?_, sorted, fun v => ?_, ?_, ?_⟩
    · rw [order]
      exact List.ext_getElem? fun v => by simpa using remaining v
    · rw [enqueued, order, remaining]
      simp only [mem_dependents, List.mem_append, List.mem_singleton, not_or]
      constructor
      · rintro (waiting | ⟨⟨ds, at_v, needs⟩, zero⟩)
        · have before := (h.ready v).mp (by simp [next, waiting])
          obtain ⟨untaken, ds, at_v, taken⟩ := before
          exact ⟨⟨untaken, Nat.ne_of_gt (above v waiting)⟩, ds, at_v, fun u hu => .inl (taken u hu)⟩
        · simp only [at_v, Option.map_some, Option.some.injEq, missing_eq_zero_iff,
            List.mem_append, List.mem_singleton] at zero
          refine ⟨⟨fun taken => fresh (h.closed taken at_v id needs), ?_⟩, ds, at_v, zero⟩
          rintro rfl
          exact fresh (taken at_v _ needs)
      · rintro ⟨⟨untaken, other⟩, ds, at_v, all⟩
        by_cases needs : id ∈ ds
        · refine .inr ⟨⟨ds, at_v, needs⟩, ?_⟩
          simpa [at_v, missing_eq_zero_iff] using all
        · have waiting : v ∈ p.ready := (h.ready v).mpr ⟨untaken, ds, at_v, fun u hu =>
            (all u hu).resolve_right fun same => needs (same ▸ hu)⟩
          rw [next] at waiting
          exact .inl ((List.mem_cons.mp waiting).resolve_left other)
    · rw [order]
      exact List.concat_eq_append ▸ List.Nodup.concat fresh h.nodup
    · rw [order]
      intro before v rest split
      rcases List.eq_nil_or_concat rest with rfl | ⟨rest, last, rfl⟩
      · obtain ⟨rfl, last⟩ := List.append_inj' split rfl
        cases last
        exact found
      · rw [List.concat_eq_append, ← List.cons_append, ← List.append_assoc] at split
        exact h.after before v rest (List.append_inj' split rfl).1

theorem run_invariant (wellFormed : dependencies.WellFormed) (steps : Nat) {p : Progress}
    (h : Invariant dependencies p) : Invariant dependencies (run dependencies steps p) := by
  induction steps generalizing p with
  | zero => exact h
  | succ steps ih => exact ih (step_invariant wellFormed h)

end Order

namespace Graph

open OperatorGraph.Order

/-- Edges are names of inputs and outputs alone. -/
theorem topologicalOrder?_map (g : Graph) {f : Node → Node}
    (inputs : ∀ node, (f node).inputs = node.inputs)
    (outputs : ∀ node, (f node).outputs = node.outputs) :
    ({ g with nodes := g.nodes.map f } : Graph).topologicalOrder? = g.topologicalOrder? := by
  have producer (name : String) :
      ({ g with nodes := g.nodes.map f } : Graph).producer? name = g.producer? name := by
    have produces : (fun x : Node × Nat => x.1.outputs.contains name) ∘ Prod.map f id =
        fun x => x.1.outputs.contains name := by
      funext x
      simp [outputs]
    have sameId : Prod.snd ∘ Prod.map f id = (Prod.snd : Node × Nat → Nat) := rfl
    simp only [producer?, List.zipIdx_map, List.filter_map, List.getLast?_map, Option.map_map,
      produces, sameId]
  have dependencies : ({ g with nodes := g.nodes.map f } : Graph).dependencies = g.dependencies := by
    simp only [Graph.dependencies, List.map_map]
    apply List.map_congr_left
    intro node _
    simp [dependenciesOf, inputs, funext producer]
  simp only [topologicalOrder?, dependencies, List.length_map]

theorem dependencies_wellFormed (g : Graph) : g.dependencies.WellFormed where
  nodup ds h := by
    obtain ⟨node, _, rfl⟩ := List.mem_map.mp h
    exact List.nodup_range.filter _
  bounded ds h u hu := by
    obtain ⟨node, _, rfl⟩ := List.mem_map.mp h
    simpa [dependencies] using (List.mem_filter.mp hu).1

/-- The invariant holds when the ids run out. -/
theorem finished_invariant (g : Graph) :
    Invariant g.dependencies (run g.dependencies g.nodes.length (start g.dependencies)) :=
  run_invariant g.dependencies_wellFormed _ (start_invariant _)

theorem topologicalOrder?_perm {g : Graph} {ids : List Nat} (h : g.topologicalOrder? = some ids) :
    ids.Perm (List.range g.nodes.length) := by
  simp only [topologicalOrder?] at h
  split at h
  · rename_i full
    cases Option.some.inj h
    have invariant := g.finished_invariant
    have nodes : ∀ v ∈ (run g.dependencies g.nodes.length (start g.dependencies)).order,
        v ∈ List.range g.nodes.length := by
      intro v taken
      simpa [dependencies] using invariant.bounded taken
    exact (List.subperm_of_subset invariant.nodup nodes).perm_of_length_le (by simp [full])
  · contradiction

end Graph

end OperatorGraph
