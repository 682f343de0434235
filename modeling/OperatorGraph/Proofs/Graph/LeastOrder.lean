import Mathlib.Data.List.Lex
import Mathlib.Order.Bounds.Defs
import OperatorGraph.Proofs.Graph.Cycle

/-!
Ties between nodes. Of all orders in which every node stands after those it depends on, the one that
is returned is the first in lexicographic order. While it agrees with another one, what the other
has next is ready, and of what is ready the smallest is taken.
-/

namespace OperatorGraph

namespace Order

/-- Whether a list leaves another one, after a common beginning, for something smaller. -/
def Undercuts (taken other : List Nat) : Prop :=
  ∃ common a b, a < b ∧ common ++ [a] <+: taken ∧ common ++ [b] <+: other

theorem Undercuts.lt {taken other : List Nat} (h : Undercuts taken other) : taken < other := by
  obtain ⟨common, a, b, below, ⟨rest, rfl⟩, rest', rfl⟩ := h
  rw [List.append_assoc, List.append_assoc]
  exact List.Lex.append_left _ (.rel below) common

/-- An ascending list comes before all others with the same elements. -/
theorem le_of_perm_of_ascending {ids other : List Nat} (ascending : ids.Pairwise (· < ·))
    (perm : other.Perm ids) : ids ≤ other := by
  induction ids generalizing other with
  | nil => exact le_of_eq (List.perm_nil.mp perm).symm
  | cons id rest ih =>
    obtain ⟨above, tail⟩ := List.pairwise_cons.mp ascending
    cases other with
    | nil => exact absurd perm.length_eq (by simp)
    | cons first others =>
      rcases List.mem_cons.mp (perm.mem_iff.mp List.mem_cons_self) with rfl | later
      · exact List.cons_le_cons first (ih tail perm.cons_inv)
      · exact le_of_lt (List.Lex.rel (above first later))

variable {dependencies : Dependencies}

/-- Whether a list has every node once, after those it needs. -/
structure Dependencies.Admits (dependencies : Dependencies) (ids : List Nat) : Prop where
  perm : ids.Perm (List.range dependencies.length)
  after : ∀ v u, dependencies.Needs v u → ids.idxOf u < ids.idxOf v

theorem Dependencies.Admits.nodup {ids : List Nat} (h : dependencies.Admits ids) : ids.Nodup :=
  h.perm.nodup_iff.mpr List.nodup_range

theorem Dependencies.Admits.mem_iff {ids : List Nat} (h : dependencies.Admits ids) {v : Nat} :
    v ∈ ids ↔ v < dependencies.length := by
  rw [h.perm.mem_iff, List.mem_range]

/-- What a node needs stands in the part of the list before it. -/
theorem Dependencies.Admits.earlier {before rest : List Nat} {v u : Nat}
    (h : dependencies.Admits (before ++ v :: rest)) (needed : dependencies.Needs v u) :
    u ∈ before := by
  have apart : v ∉ before := fun twice =>
    (List.nodup_append.mp h.nodup).2.2 v twice v List.mem_cons_self rfl
  have place : (before ++ v :: rest).idxOf v = before.length := by
    simp [List.idxOf_append, apart]
  have ahead := h.after v u needed
  by_contra absent
  rw [place, List.idxOf_append, if_neg absent] at ahead
  omega

/-- As long as progress agrees with a list that has every node after those it needs, what the list
has next is ready. -/
theorem Invariant.ready_of_admits {p : Progress} (h : Invariant dependencies p) {v : Nat}
    {rest : List Nat} (admits : dependencies.Admits (p.order ++ v :: rest)) : v ∈ p.ready := by
  have bound : v < dependencies.length := admits.mem_iff.mp (by simp)
  have untaken : v ∉ p.order := fun twice =>
    (List.nodup_append.mp admits.nodup).2.2 v twice v List.mem_cons_self rfl
  refine (h.ready v).mpr ⟨untaken, dependencies[v], by simp [bound], fun u member => ?_⟩
  exact admits.earlier ⟨dependencies[v], by simp [bound], member⟩

theorem step_order {p : Progress} {id : Nat} {ready : List Nat} (next : p.ready = id :: ready) :
    (step dependencies p).order = p.order ++ [id] := by
  simp only [step, next, releaseAll_order]

/-- A step keeps to a list that has every node after those it needs, or leaves it for something
smaller. -/
theorem step_undercuts {p : Progress} (h : Invariant dependencies p) {other : List Nat}
    (admits : dependencies.Admits other) (along : p.order <+: other ∨ Undercuts p.order other) :
    (step dependencies p).order <+: other ∨ Undercuts (step dependencies p).order other := by
  cases next : p.ready with
  | nil => simpa only [step, next] using along
  | cons id ready =>
    rw [step_order next]
    rcases along with ⟨rest, rfl⟩ | ⟨common, a, b, below, taken, others⟩
    · obtain ⟨untaken, ds, found, _⟩ := (h.ready id).mp (by simp [next])
      have bound := (List.getElem?_eq_some_iff.mp found).1
      cases rest with
      | nil => exact absurd (by simpa using admits.mem_iff.mpr bound) untaken
      | cons v rest =>
        have ready_v : v ∈ id :: ready := next ▸ h.ready_of_admits admits
        rcases List.mem_cons.mp ready_v with rfl | later
        · exact .inl ⟨rest, by simp⟩
        · have ascending := List.pairwise_cons.mp (next ▸ h.ascending)
          exact .inr ⟨p.order, id, v, ascending.1 v later, List.prefix_rfl, rest, by simp⟩
    · exact .inr ⟨common, a, b, below, taken.trans (List.prefix_append ..), others⟩

theorem run_undercuts (wellFormed : dependencies.WellFormed) (steps : Nat) {p : Progress}
    (h : Invariant dependencies p) {other : List Nat} (admits : dependencies.Admits other)
    (along : p.order <+: other ∨ Undercuts p.order other) :
    (run dependencies steps p).order <+: other ∨
      Undercuts (run dependencies steps p).order other := by
  induction steps generalizing p with
  | zero => exact along
  | succ steps ih => exact ih (step_invariant wellFormed h) (step_undercuts h admits along)

end Order

namespace Graph

open OperatorGraph.Order

/-- The orders of all nodes in which each stands after those it depends on. -/
def orders (g : Graph) : Set (List Nat) :=
  {ids | ids.Perm (List.range g.nodes.length) ∧ ∀ v u, g.DependsOn v u → ids.idxOf u < ids.idxOf v}

theorem admits_of_mem_orders {g : Graph} {ids : List Nat} (h : ids ∈ g.orders) :
    g.dependencies.Admits ids where
  perm := by simpa [dependencies] using h.1
  after v u needed := h.2 v u (needs_dependencies_iff.mp needed)

theorem mem_orders_of_topologicalOrder? {g : Graph} {ids : List Nat}
    (h : g.topologicalOrder? = some ids) : ids ∈ g.orders :=
  ⟨topologicalOrder?_perm h, fun _ _ depends => idxOf_lt_of_dependsOn h depends⟩

theorem topologicalOrder?_le {g : Graph} {ids other : List Nat} (h : g.topologicalOrder? = some ids)
    (member : other ∈ g.orders) : ids ≤ other := by
  have same_length : ids.length = other.length :=
    (topologicalOrder?_perm h).length_eq.trans member.1.length_eq.symm
  simp only [topologicalOrder?] at h
  split at h
  · cases Option.some.inj h
    have along := run_undercuts g.dependencies_wellFormed g.nodes.length (start_invariant _)
      (admits_of_mem_orders member) (.inl List.nil_prefix)
    rcases along with agrees | undercuts
    · exact le_of_eq (agrees.eq_of_length same_length)
    · exact le_of_lt undercuts.lt
  · contradiction

/-- Where some order of the nodes will do, one is returned. -/
theorem exists_topologicalOrder? {g : Graph} {other : List Nat} (member : other ∈ g.orders) :
    ∃ ids, g.topologicalOrder? = some ids := by
  cases ordered : g.topologicalOrder? with
  | some ids => exact ⟨ids, rfl⟩
  | none =>
    obtain ⟨v, cycle⟩ := exists_cycle_of_none ordered
    have falls : Relation.TransGen (· > ·) (other.idxOf v) (other.idxOf v) :=
      cycle.lift other.idxOf member.2
    rw [Relation.transGen_eq_self] at falls
    exact absurd falls (Nat.lt_irrefl _)

theorem range_mem_orders {g : Graph} (inserted : ∀ v u, g.DependsOn v u → u < v) :
    List.range g.nodes.length ∈ g.orders := by
  refine ⟨.rfl, fun v u depends => ?_⟩
  have below := inserted v u depends
  have bound : v < g.nodes.length := by
    obtain ⟨node, held, _⟩ := depends
    exact (List.getElem?_eq_some_iff.mp held).1
  have place : ∀ w < g.nodes.length, (List.range g.nodes.length).idxOf w = w := fun w within => by
    have at_w := List.nodup_range.idxOf_getElem w (by simpa using within)
    rwa [List.getElem_range] at at_w
  rwa [place u (below.trans bound), place v bound]

/-- An order is returned exactly if it is the lexicographically smallest of those in which every
node stands after the ones it depends on. If the nodes were inserted in such an order, it is that
one. -/
theorem topologicalOrder?_isLeast (g : Graph) :
    (∀ ids, g.topologicalOrder? = some ids ↔ IsLeast g.orders ids) ∧
      ((∀ v u, g.DependsOn v u → u < v) →
        g.topologicalOrder? = some (List.range g.nodes.length)) := by
  have least : ∀ {ids}, g.topologicalOrder? = some ids → IsLeast g.orders ids := fun ordered =>
    ⟨mem_orders_of_topologicalOrder? ordered, fun _ member => topologicalOrder?_le ordered member⟩
  have returned : ∀ {ids}, IsLeast g.orders ids → g.topologicalOrder? = some ids := by
    intro ids smallest
    obtain ⟨found, ordered⟩ := exists_topologicalOrder? smallest.1
    rw [ordered, (least ordered).unique smallest]
  refine ⟨fun ids => ⟨least, returned⟩, fun inserted => returned ⟨range_mem_orders inserted, ?_⟩⟩
  exact fun other member => le_of_perm_of_ascending List.pairwise_lt_range member.1

/-- The first node has to wait for the last, and the one between them goes before both. -/
example :
    topologicalOrder?
        { nodes :=
            [{ opType := "Relu", inputs := ["x"] }, { opType := "Abs", outputs := ["y"] },
              { opType := "Neg", outputs := ["x"] }] } =
      some [1, 2, 0] := by
  decide

end Graph

end OperatorGraph
