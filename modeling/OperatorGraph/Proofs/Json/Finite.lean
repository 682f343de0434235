import OperatorGraph.Proofs.Json.Gives
import OperatorGraph.Proofs.Json.RoundTrip

/-!
Graphs that are read from JSON text. Every float in one is finite, whatever the text.
-/

namespace OperatorGraph

open Json.Reader

namespace Attribute

theorem Scalar.gives_ofJson : Gives Scalar.ofJson fun s => s.isFinite = true := by
  refine gives_choice ?_
  simp only [List.forall_mem_cons, List.not_mem_nil, false_implies, implies_true, and_true]
  refine ⟨?_, ?_, ?_, ?_⟩
  · exact gives_bind fun n => gives_pure rfl
  · exact gives_float.bind fun x finite => gives_pure finite
  · exact gives_bind fun b => gives_pure rfl
  · exact gives_bind fun s => gives_pure rfl

theorem Value.gives_ofJson : Gives Value.ofJson fun v => v.isFinite = true := by
  refine gives_choice ?_
  simp only [List.forall_mem_cons, List.not_mem_nil, false_implies, implies_true, and_true]
  refine ⟨?_, ?_, ?_⟩
  · exact Scalar.gives_ofJson.bind fun s finite => gives_pure finite
  · exact (gives_list Scalar.gives_ofJson).bind fun es finite =>
      gives_pure (List.all_eq_true.mpr finite)
  · exact gives_bind fun p => gives_pure rfl

theorem Store.isFinite_iff (store : Store) :
    store.isFinite = true ↔ ∀ name v, store.get? name = some v → v.isFinite = true := by
  simp only [isFinite, List.all_eq_true, Prod.forall, ← NameMap.mem_entries_iff]

theorem Store.gives_ofJson : Gives Store.ofJson fun store => store.isFinite = true := by
  intro s store rest read
  exact store.isFinite_iff.mpr (gives_map Value.gives_ofJson s store rest read)

end Attribute

namespace Node

/-- Whether the attributes that have been read of a node are finite. -/
def Draft.IsFinite (p : Draft) : Prop := ∀ attributes ∈ p.attributes, attributes.isFinite = true

theorem Draft.isFinite_complete {p : Draft} (h : p.IsFinite) (opType : String) :
    (p.complete opType).isFinite = true := by
  cases read : p.attributes with
  | none => simp [complete, isFinite, read, Attribute.Store.isFinite, NameMap.empty]
  | some attributes => simpa [complete, isFinite, read] using h attributes read

theorem Draft.gives_read (p : Draft) (key : String) (h : p.IsFinite) :
    Gives (p.read key) IsFinite := by
  unfold read
  split
  case h_6 =>
    exact (gives_once _ _ Attribute.Store.gives_ofJson).bind fun _ finite => gives_pure finite
  case h_7 => exact gives_bind fun _ => gives_pure h
  all_goals exact gives_bind fun _ => gives_pure h

theorem gives_ofJson : Gives Node.ofJson fun n => n.isFinite = true := by
  refine gives_record _ ?_ ?_
  · refine gives_bind fun _ => gives_bind fun opType => gives_bind fun _ => gives_bind fun _ =>
      gives_bind fun _ => gives_bind fun _ => ?_
    refine (gives_item? Attribute.Store.gives_ofJson false).bind fun _ finite => ?_
    refine gives_pure (Draft.isFinite_complete ?_ opType)
    exact finite
  · refine (gives_fields Draft.gives_read (by simp [Draft.IsFinite])).bind fun p finite => ?_
    exact gives_bind fun opType => gives_pure (Draft.isFinite_complete finite opType)

end Node

namespace Graph

/-- Whether the nodes that have been read of a graph are finite. -/
def Draft.IsFinite (p : Draft) : Prop := ∀ nodes ∈ p.nodes, ∀ n ∈ nodes, n.isFinite = true

theorem Draft.isFinite_complete (p : Draft) {nodes : List Node}
    (h : ∀ n ∈ nodes, n.isFinite = true) : (p.complete nodes).isFinite = true :=
  List.all_eq_true.mpr h

theorem Draft.gives_read (p : Draft) (key : String) (h : p.IsFinite) :
    Gives (p.read key) IsFinite := by
  unfold read
  split
  case h_5 =>
    exact (gives_once _ _ (gives_list Node.gives_ofJson)).bind fun _ finite => gives_pure finite
  all_goals exact gives_bind fun _ => gives_pure h

theorem gives_ofJson : Gives Graph.ofJson fun g => g.isFinite = true := by
  refine gives_record _ ?_ ?_
  · refine gives_bind fun _ => gives_bind fun _ => gives_bind fun _ => gives_bind fun _ => ?_
    refine (gives_item? (gives_list Node.gives_ofJson) false).bind fun _ read => ?_
    refine (gives_requireItem _ _ read).bind fun nodes finite => ?_
    exact gives_pure (Draft.isFinite_complete _ finite)
  · refine (gives_fields Draft.gives_read (by simp [Draft.IsFinite])).bind fun p read => ?_
    refine (gives_require _ read).bind fun nodes finite => ?_
    exact gives_pure (Draft.isFinite_complete p finite)

/-- JSON text has no way to write a float that is not finite. -/
theorem isFinite_of_readJson {t : String} {g : Graph} (read : readJson t = .ok g) :
    g.isFinite = true := gives_ofJson.run read

end Graph

end OperatorGraph
