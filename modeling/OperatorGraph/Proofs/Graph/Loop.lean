import Mathlib.Data.Set.Card
import OperatorGraph.Proofs.Graph.Cycle

/-!
The loop of the topological order, step by step. Its counters say how many dependencies of a node
are still to be taken, its ready nodes are those that wait for none. A second loop does the same
with a table of dependents and guards: it stops where the table or the counters have no entry, where
a counter would fall below zero, and where a node becomes ready that was ready before. It never
stops.
-/

namespace OperatorGraph

namespace Order

/-! ## Guards -/

/-- For each node those that depend on it. -/
abbrev Table := List (List Nat)

/-- Enters a node among the dependents of another one, if the table has that. -/
def link? (v : Nat) (table : Table) (u : Nat) : Option Table :=
  table[u]?.map fun waiting => table.set u (enqueue v waiting)

/-- The table of dependents, entered node by node. -/
def table? (dependencies : Dependencies) : Option Table :=
  dependencies.zipIdx.foldlM (fun table (ds, v) => ds.foldlM (link? v) table)
    (List.replicate dependencies.length [])

/-- Progress, and the nodes that have become ready so far. -/
structure Guarded where
  progress : Progress
  entered : List Nat

/-- As `release`, for a counter that can go down and a node that becomes ready once at most. -/
def release? (s : Guarded) (id : Nat) : Option Guarded :=
  match s.progress.remaining[id]? with
  | none | some 0 => none
  | some 1 =>
    if id ∈ s.entered then none
    else some { progress := release s.progress id, entered := s.entered ++ [id] }
  | some (_ + 2) => some { s with progress := release s.progress id }

def step? (table : Table) (s : Guarded) : Option Guarded :=
  match s.progress.ready with
  | [] => some s
  | id :: ready =>
    table[id]?.bind fun waiting =>
      waiting.foldlM release?
        { s with progress := { s.progress with ready, order := s.progress.order ++ [id] } }

def run? (table : Table) : Nat → Guarded → Option Guarded
  | 0, s => some s
  | steps + 1, s => (step? table s).bind (run? table steps)

/-- The loop from the table on, where the nodes that are ready at the start have become ready. -/
def guarded? (dependencies : Dependencies) (steps : Nat) : Option Guarded :=
  (table? dependencies).bind fun table =>
    run? table steps { progress := start dependencies, entered := (start dependencies).ready }

/-! ## The table -/

theorem enqueue_of_forall_lt {id : Nat} {ids : List Nat} (h : ∀ v ∈ ids, v < id) :
    enqueue id ids = ids ++ [id] := by
  induction ids with
  | nil => rfl
  | cons first rest ih =>
    obtain ⟨below, others⟩ := List.forall_mem_cons.mp h
    rw [enqueue, if_neg (by omega), if_neg (by omega), ih others, List.cons_append]

/-- A node is entered among the dependents of all that it depends on, and of no others. -/
theorem foldlM_link? {v : Nat} {ds : List Nat} (nodup : ds.Nodup) (table : Table)
    (bounded : ∀ u ∈ ds, u < table.length) :
    ∃ linked, ds.foldlM (link? v) table = some linked ∧ linked.length = table.length ∧
      ∀ u : Nat, linked[u]? =
        table[u]?.map fun waiting => if u ∈ ds then enqueue v waiting else waiting := by
  induction ds generalizing table with
  | nil => exact ⟨table, rfl, rfl, by simp⟩
  | cons d rest ih =>
    obtain ⟨apart, tail⟩ := List.nodup_cons.mp nodup
    obtain ⟨within, others⟩ := List.forall_mem_cons.mp bounded
    obtain ⟨linked, folded, size, entries⟩ :=
      ih tail (table.set d (enqueue v table[d])) (by simpa using others)
    have first : link? v table d = some (table.set d (enqueue v table[d])) := by
      simp [link?, within]
    refine ⟨linked, ?_, by simpa using size, fun u => ?_⟩
    · rw [List.foldlM_cons, first]
      exact folded
    · rw [entries, List.getElem?_set]
      by_cases same : d = u
      · subst same
        simp [apart, within]
      · simp [same, Ne.symm same]

theorem dependents_append (l : Dependencies) (ds : List Nat) (u : Nat) :
    dependents (l ++ [ds]) u = dependents l u ++ if u ∈ ds then [l.length] else [] := by
  have earlier : (List.range l.length).filter (fun v => ((l ++ [ds]).getD v []).contains u) =
      dependents l u := by
    refine List.filter_congr fun v member => ?_
    have within : v < l.length := List.mem_range.mp member
    simp [List.getD, List.getElem?_append_left within]
  rw [dependents, List.length_append, List.length_singleton, List.range_succ, List.filter_append,
    earlier]
  by_cases needed : u ∈ ds <;> simp [List.getD, needed]

theorem lt_of_mem_dependents {l : Dependencies} {u v : Nat} (h : v ∈ dependents l u) :
    v < l.length := List.mem_range.mp (List.mem_filter.mp h).1

theorem foldlM_table {n : Nat} {l : Dependencies}
    (each : ∀ ds ∈ l, ds.Nodup ∧ ∀ u ∈ ds, u < n) :
    l.zipIdx.foldlM (fun table (ds, v) => ds.foldlM (link? v) table) (List.replicate n []) =
      some ((List.range n).map (dependents l)) := by
  induction l using List.reverseRecOn with
  | nil =>
    have alone : dependents [] = fun _ => [] := rfl
    simp [alone, List.map_const']
  | append_singleton l ds ih =>
    have before := ih fun ds' member => each ds' (List.mem_append_left _ member)
    obtain ⟨nodup, bounded⟩ := each ds (by simp)
    obtain ⟨linked, folded, size, entries⟩ :=
      foldlM_link? (v := l.length) nodup ((List.range n).map (dependents l))
        (by simpa using bounded)
    have whole : linked = (List.range n).map (dependents (l ++ [ds])) := by
      refine List.ext_getElem? fun u => ?_
      rw [entries]
      by_cases within : u < n
      · have last := enqueue_of_forall_lt fun v => lt_of_mem_dependents (l := l) (u := u) (v := v)
        by_cases needed : u ∈ ds <;> simp [within, dependents_append, needed, last]
      · simp [within]
    rw [List.zipIdx_append, List.foldlM_append, before]
    simpa [whole] using folded

/-- Entered node by node, the table lists all dependents, and no entry is missing. -/
theorem table?_eq_some {dependencies : Dependencies} (wellFormed : dependencies.WellFormed) :
    table? dependencies =
      some ((List.range dependencies.length).map (dependents dependencies)) :=
  foldlM_table fun ds member => ⟨wellFormed.nodup ds member, wellFormed.bounded ds member⟩

/-! ## The guards -/

/-- Whether a counter can go down. -/
def CanFall (p : Progress) (v : Nat) : Prop := ∃ count, p.remaining[v]? = some (count + 1)

/-- The nodes of a list that one count keeps from being ready. -/
def oneMissing (p : Progress) (ids : List Nat) : List Nat :=
  ids.filter fun v => p.remaining[v]? = some 1

theorem release?_eq_some {s : Guarded} {id : Nat} (positive : CanFall s.progress id)
    (fresh : id ∉ s.entered) :
    release? s id = some
      { progress := release s.progress id
        entered := s.entered ++ oneMissing s.progress [id] } := by
  obtain ⟨count, held⟩ := positive
  cases count with
  | zero => simp [release?, oneMissing, held, fresh]
  | succ count => simp [release?, oneMissing, held]

/-- No guard stops the release of different nodes whose counters can go down and that have not been
ready. -/
theorem foldlM_release? {ids : List Nat} (nodup : ids.Nodup) {s : Guarded}
    (positive : ∀ v ∈ ids, CanFall s.progress v) (fresh : ∀ v ∈ ids, v ∉ s.entered) :
    ids.foldlM release? s = some
      { progress := ids.foldl release s.progress
        entered := s.entered ++ oneMissing s.progress ids } := by
  induction ids generalizing s with
  | nil => simp [oneMissing]
  | cons id rest ih =>
    obtain ⟨apart, tail⟩ := List.nodup_cons.mp nodup
    obtain ⟨falls, others⟩ := List.forall_mem_cons.mp positive
    obtain ⟨first, later⟩ := List.forall_mem_cons.mp fresh
    have kept : ∀ v ∈ rest, (release s.progress id).remaining[v]? = s.progress.remaining[v]? := by
      intro v member
      have other : v ≠ id := fun same => apart (same ▸ member)
      simp [release_remaining, other]
    have same : oneMissing (release s.progress id) rest = oneMissing s.progress rest :=
      List.filter_congr fun v member => by rw [kept v member]
    have joined : oneMissing s.progress (id :: rest) =
        oneMissing s.progress [id] ++ oneMissing s.progress rest := List.filter_append [id] rest
    rw [List.foldlM_cons, release?_eq_some falls first]
    refine (ih tail (fun v member => ?_) fun v member => ?_).trans ?_
    · obtain ⟨count, held⟩ := others v member
      exact ⟨count, (kept v member).trans held⟩
    · have other : v ≠ id := fun same => apart (same ▸ member)
      simp [oneMissing, later v member, other]
    · rw [same, joined, List.append_assoc, List.foldl_cons]

/-- What becomes ready by the release of several nodes is what one count kept from it. -/
theorem ready_foldl_release {ids : List Nat} (nodup : ids.Nodup) {p : Progress}
    (ascending : p.ready.Pairwise (· < ·)) (positive : ∀ v ∈ ids, CanFall p v)
    (fresh : ∀ v ∈ ids, v ∉ p.ready) :
    (ids.foldl release p).ready.Perm (p.ready ++ oneMissing p ids) := by
  obtain ⟨_, sorted, counts, ready⟩ := releaseAll ids nodup p ascending
  have apart : (p.ready ++ oneMissing p ids).Nodup :=
    List.nodup_append.mpr ⟨ascending.nodup, nodup.filter _, fun v waiting w member same =>
      fresh w (List.mem_filter.mp member).1 (same ▸ waiting)⟩
  refine (List.perm_ext_iff_of_nodup sorted.nodup apart).mpr fun v => ?_
  rw [ready, List.mem_append, oneMissing, List.mem_filter]
  refine or_congr_right (and_congr_right fun member => ?_)
  obtain ⟨count, held⟩ := positive v member
  rw [counts, held]
  simp [member]

variable {dependencies : Dependencies}

/-- What waits for a node that has not been taken is neither taken nor ready. -/
theorem Invariant.waits {p : Progress} (h : Invariant dependencies p) {id v : Nat}
    (untaken : id ∉ p.order) (member : v ∈ dependents dependencies id) :
    v ∉ p.order ∧ v ∉ p.ready ∧ CanFall p v := by
  obtain ⟨ds, at_v, needs⟩ := mem_dependents.mp member
  refine ⟨fun taken => untaken (h.closed taken at_v id needs), fun waiting => ?_, ?_⟩
  · obtain ⟨_, ds', at_v', all⟩ := (h.ready v).mp waiting
    cases at_v.symm.trans at_v'
    exact untaken (all id needs)
  · have some_missing : missing p.order ds ≠ 0 := fun none =>
      untaken (missing_eq_zero_iff.mp none id needs)
    obtain ⟨count, positive⟩ := Nat.exists_eq_succ_of_ne_zero some_missing
    exact ⟨count, by rw [h.remaining, List.getElem?_map, at_v, Option.map_some, positive]⟩

/-- Whether progress keeps to the invariant, and the nodes that have become ready are those that
have been taken and those that are ready. -/
structure Guarded.Kept (dependencies : Dependencies) (s : Guarded) : Prop where
  progress : Invariant dependencies s.progress
  entered : s.entered.Perm (s.progress.order ++ s.progress.ready)

theorem step?_eq_some (wellFormed : dependencies.WellFormed) {s : Guarded}
    (h : s.Kept dependencies) :
    ∃ entered, let after : Guarded := { progress := step dependencies s.progress, entered }
      step? ((List.range dependencies.length).map (dependents dependencies)) s = some after ∧
        after.Kept dependencies := by
  have invariant := step_invariant wellFormed h.progress
  cases first : s.progress.ready with
  | nil =>
    have still : step dependencies s.progress = s.progress := by simp only [step, first]
    exact ⟨s.entered, by simp [step?, first, still], by simpa only [still] using h⟩
  | cons id ready =>
    obtain ⟨untaken, ds, at_id, _⟩ := (h.progress.ready id).mp (by simp [first])
    have bound : id < dependencies.length := (List.getElem?_eq_some_iff.mp at_id).1
    obtain ⟨_, ascending⟩ := List.pairwise_cons.mp (first ▸ h.progress.ascending)
    have waits := fun v (member : v ∈ dependents dependencies id) =>
      h.progress.waits untaken member
    let taken : Progress := { s.progress with ready, order := s.progress.order ++ [id] }
    have stepped : step dependencies s.progress =
        (dependents dependencies id).foldl release taken := by simp only [step, first, taken]
    have guards := foldlM_release? (s := { progress := taken, entered := s.entered })
      (dependents_nodup id) (fun v member => (waits v member).2.2) fun v member old => by
        rcases List.mem_append.mp (h.entered.mem_iff.mp old) with old | old
        · exact (waits v member).1 old
        · exact (waits v member).2.1 old
    have grown : (step dependencies s.progress).ready.Perm
        (ready ++ oneMissing taken (dependents dependencies id)) := by
      rw [stepped]
      exact ready_foldl_release (dependents_nodup id) ascending
        (fun v member => (waits v member).2.2) fun v member old =>
          (waits v member).2.1 (first ▸ List.mem_cons_of_mem id old)
    have order : (step dependencies s.progress).order = s.progress.order ++ [id] := by
      rw [stepped, releaseAll_order]
    refine ⟨s.entered ++ oneMissing taken (dependents dependencies id), ?_, invariant, ?_⟩
    · rw [stepped, ← guards]
      simp [step?, first, bound, taken]
    · rw [order]
      have before :=
        (first ▸ h.entered).append_right (oneMissing taken (dependents dependencies id))
      rw [List.append_assoc, List.cons_append] at before
      have after := (grown.symm.cons id).append_left s.progress.order
      simpa using before.trans after

theorem run?_eq_some (wellFormed : dependencies.WellFormed) (steps : Nat) {s : Guarded}
    (h : s.Kept dependencies) :
    ∃ entered, let after : Guarded := { progress := run dependencies steps s.progress, entered }
      run? ((List.range dependencies.length).map (dependents dependencies)) steps s = some after ∧
        after.Kept dependencies := by
  induction steps generalizing s with
  | zero => exact ⟨s.entered, rfl, h⟩
  | succ steps ih =>
    obtain ⟨entered, one, kept⟩ := step?_eq_some wellFormed h
    obtain ⟨entered', others, kept'⟩ := ih kept
    exact ⟨entered', by rw [run?, one]; exact others, kept'⟩

theorem guarded?_eq_some (wellFormed : dependencies.WellFormed) (steps : Nat) :
    ∃ entered, let after : Guarded :=
        { progress := run dependencies steps (start dependencies), entered }
      guarded? dependencies steps = some after ∧ after.Kept dependencies := by
  have begun : Guarded.Kept dependencies
      { progress := start dependencies, entered := (start dependencies).ready } :=
    ⟨start_invariant dependencies, .rfl⟩
  obtain ⟨entered, done, kept⟩ := run?_eq_some wellFormed steps begun
  exact ⟨entered, by rw [guarded?, table?_eq_some wellFormed]; exact done, kept⟩

/-! ## Counters and ready nodes -/

theorem Invariant.nodup_taken_ready {p : Progress} (h : Invariant dependencies p) :
    (p.order ++ p.ready).Nodup :=
  List.nodup_append.mpr ⟨h.nodup, h.ascending.nodup, fun _ taken w waiting same =>
    ((h.ready w).mp waiting).1 (same ▸ taken)⟩

/-- There are never more nodes taken and ready than there are nodes. -/
theorem Invariant.length_le {p : Progress} (h : Invariant dependencies p) :
    p.order.length + p.ready.length ≤ dependencies.length := by
  have within : p.order ++ p.ready ⊆ List.range dependencies.length := by
    intro v member
    rcases List.mem_append.mp member with taken | waiting
    · exact List.mem_range.mpr (h.bounded taken)
    · obtain ⟨_, ds, at_v, _⟩ := (h.ready v).mp waiting
      exact List.mem_range.mpr (List.getElem?_eq_some_iff.mp at_v).1
  have fits := (List.subperm_of_subset h.nodup_taken_ready within).length_le
  simpa using fits

theorem ncard_setOf_mem {l : List Nat} (nodup : l.Nodup) : {u | u ∈ l}.ncard = l.length := by
  rw [← List.coe_toFinset, Set.ncard_coe_finset, List.toFinset_card_of_nodup nodup]

/-- A counter says how many nodes are needed and have not been taken. -/
theorem Invariant.remaining_eq_ncard {p : Progress} (h : Invariant dependencies p)
    (wellFormed : dependencies.WellFormed) {v : Nat} (bound : v < dependencies.length) :
    p.remaining[v]? = some {u | dependencies.Needs v u ∧ u ∉ p.order}.ncard := by
  have at_v : dependencies[v]? = some dependencies[v] := List.getElem?_eq_getElem bound
  have nodup := wellFormed.nodup dependencies[v] (List.getElem_mem bound)
  have needed : {u | dependencies.Needs v u ∧ u ∉ p.order} =
      {u | u ∈ dependencies[v].filter fun u => decide (u ∉ p.order)} := by
    ext u
    simp [Dependencies.Needs, at_v]
  rw [needed, ncard_setOf_mem (nodup.filter _), ← List.countP_eq_length_filter, h.remaining,
    List.getElem?_map, at_v]
  rfl

/-- Ready are the nodes that have not been taken and whose counters are at zero. -/
theorem Invariant.mem_ready_iff {p : Progress} (h : Invariant dependencies p) {v : Nat} :
    v ∈ p.ready ↔ v < dependencies.length ∧ v ∉ p.order ∧ p.remaining[v]? = some 0 := by
  rw [h.ready, h.remaining, List.getElem?_map, and_left_comm]
  refine and_congr_right fun _ => ?_
  constructor
  · rintro ⟨ds, at_v, all⟩
    exact ⟨(List.getElem?_eq_some_iff.mp at_v).1, by simp [at_v, missing_eq_zero_iff.mpr all]⟩
  · rintro ⟨bound, zero⟩
    have at_v : dependencies[v]? = some dependencies[v] := List.getElem?_eq_getElem bound
    simp only [at_v, Option.map_some, Option.some.injEq] at zero
    exact ⟨dependencies[v], at_v, missing_eq_zero_iff.mp zero⟩

/-- After as many steps as there are nodes none is ready. -/
theorem run_ready_eq_nil (wellFormed : dependencies.WellFormed) {steps : Nat}
    (enough : dependencies.length ≤ steps) :
    (run dependencies steps (start dependencies)).ready = [] := by
  have fits := (run_invariant wellFormed steps (start_invariant dependencies)).length_le
  have ended : _ ∨ (run dependencies steps (start dependencies)).ready = [] :=
    run_length_or_stuck steps (start dependencies)
  rcases ended with all | stuck
  · have begun : (start dependencies).order.length = 0 := rfl
    exact List.eq_nil_of_length_eq_zero (by omega)
  · exact stuck

end Order

namespace Graph

open OperatorGraph.Order

/-- The loop of the topological order, at every step. A counter is the number of nodes that its node
depends on and that have not been taken, and ready are the nodes that have not been taken and whose
counters are at zero. The guarded loop has come as far without being stopped, so no table was read
out of its bounds and no counter fell below zero, and no node has become ready twice. After as many
steps as there are nodes the loop has ended. -/
theorem loop_invariant (g : Graph) (steps : Nat) :
    let p := run g.dependencies steps (start g.dependencies)
    p.remaining.length = g.nodes.length ∧
    (∀ v < g.nodes.length, p.remaining[v]? = some {u | g.DependsOn v u ∧ u ∉ p.order}.ncard) ∧
    (∀ v, v ∈ p.ready ↔ v < g.nodes.length ∧ v ∉ p.order ∧ p.remaining[v]? = some 0) ∧
    (∃ entered, guarded? g.dependencies steps = some { progress := p, entered } ∧
      entered.Nodup ∧ entered.Perm (p.order ++ p.ready)) ∧
    (g.nodes.length ≤ steps → p.ready = []) := by
  intro p
  have wellFormed := g.dependencies_wellFormed
  have size : g.dependencies.length = g.nodes.length := List.length_map _
  have invariant : Invariant g.dependencies p := run_invariant wellFormed steps (start_invariant _)
  refine ⟨?_, fun v bound => ?_, fun v => ?_, ?_, fun enough => ?_⟩
  · rw [invariant.remaining, List.length_map, size]
  · rw [← needs_dependencies]
    exact invariant.remaining_eq_ncard wellFormed (size.symm ▸ bound)
  · rw [← size]
    exact invariant.mem_ready_iff
  · obtain ⟨entered, done, kept⟩ := guarded?_eq_some wellFormed steps
    exact ⟨entered, done, kept.entered.nodup_iff.mpr invariant.nodup_taken_ready, kept.entered⟩
  · exact run_ready_eq_nil wellFormed (size.symm ▸ enough)

/-- Several tensors from one node count once, and what needs its own output is never ready. -/
example :
    let g : Graph :=
      { nodes :=
          [{ opType := "Split", outputs := ["a", "b"] },
            { opType := "Add", inputs := ["a", "b", "a"], outputs := ["c"] },
            { opType := "Sum", inputs := ["c", "d"], outputs := ["d"] }] }
    run g.dependencies 3 (start g.dependencies) =
      { remaining := [0, 0, 1], ready := [], order := [0, 1] } := by
  decide

end Graph

end OperatorGraph
