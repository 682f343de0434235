import OperatorGraph.Proofs.Extender.Portable
import OperatorGraph.Proofs.Extender.Sameness
import OperatorGraph.Proofs.Graph.Reload
import OperatorGraph.Proofs.Idempotence

/-!
Writing a normalized graph and loading it again. What the extenders make of a loaded graph can be
expressed by the format, and what comes back is still normalized.
-/

namespace OperatorGraph

namespace Registry

theorem builtin_portable {node : Node} (h : node.Portable) :
    (builtin.extendNode node).Portable := by
  unfold extendNode
  split
  · exact h
  · rename_i e found
    exact ⟨h.named, Extender.builtins_portable (mem_of_lookup_builtin found).1 h.attributes⟩

theorem builtin_same {node node' : Node} (h : node.Same node') :
    (builtin.extendNode node).Same (builtin.extendNode node') := by
  have opType : builtin.lookup node.opType = builtin.lookup node'.opType := by rw [h.opType]
  simp only [extendNode, opType]
  split
  · exact h
  · rename_i e found
    exact ⟨h.1, Extender.builtins_same (mem_of_lookup_builtin found).1 h⟩

end Registry

namespace Normalize

theorem runBuiltin_portable {g : Graph} (h : g.Portable) (config : Config) :
    (runBuiltin g config).graph.Portable := by
  rw [runBuiltin, run_graph]
  refine ⟨h.named, fun node member => ?_⟩
  obtain ⟨original, held, rfl⟩ := List.mem_map.mp member
  exact Registry.builtin_portable (h.nodes original held)

theorem runBuiltin_same {g g' : Graph} (h : g.Same g') (config config' : Config) :
    (runBuiltin g config).graph.Same (runBuiltin g' config').graph := by
  rw [runBuiltin, runBuiltin, run_graph, run_graph]
  refine ⟨h.1, List.forall₂_map_left_iff.mpr (List.forall₂_map_right_iff.mpr ?_)⟩
  exact h.2.imp fun _ _ => Registry.builtin_same

/-- A graph that has been loaded and normalized, whatever the order and the strictness, can be
written. It comes back as the same graph, and normalizing that changes nothing any more. Bytes in
memory, read or written, are always fewer than `2 ^ 63`. -/
theorem runBuiltin_reload {bytes : List UInt8} {g : Graph} (size : bytes.length < 2 ^ 63)
    (loaded : Graph.ofOnnx bytes = .ok g) (config : Config) :
    let normalized := (runBuiltin g config).graph
    ∃ written, normalized.toOnnx = .ok written ∧
      (written.length < 2 ^ 63 → ∃ reloaded, Graph.ofOnnx written = .ok reloaded ∧
        reloaded.Same normalized ∧
        ∀ config', (runBuiltin reloaded config').graph.Same normalized) := by
  intro normalized
  have portable : normalized.Portable :=
    runBuiltin_portable (Graph.portable_of_ofOnnx size loaded) config
  obtain ⟨same, x, written, deep⟩ := Graph.portable portable
  have bytes : normalized.toOnnx = .ok (Onnx.Model.codec.encode x) := by
    rw [Graph.toOnnx, written]
    rfl
  refine ⟨_, bytes, fun small => ?_⟩
  obtain ⟨reloaded, _⟩ := Graph.reload written deep (small.trans (by decide))
  refine ⟨_, reloaded, same, fun config' => ?_⟩
  have again : (runBuiltin normalized config).graph = normalized :=
    (run_run g Registry.builtin_idempotent config).1
  have normal := runBuiltin_same same config' config
  rwa [again] at normal

/-- Axes that were given as text come back as the integers they were read as. -/
theorem runBuiltin_reload_interpolate :
    let bytes : List UInt8 :=
      [58, 31, 10, 29, 34, 11, 73, 110, 116, 101, 114, 112, 111, 108, 97, 116, 101, 42, 14, 10, 4,
        97, 120, 101, 115, 34, 3, 50, 44, 51, 160, 1, 3]
    let g : Graph :=
      { nodes := [{ opType := "Interpolate", attributes := .ofList [("axes", .text "2,3")] }] }
    let normalized := (runBuiltin g { strict := true }).graph
    bytes.length < 2 ^ 63 ∧ Graph.ofOnnx bytes = .ok g ∧
      ∃ written reloaded, normalized.toOnnx = .ok written ∧ written.length < 2 ^ 63 ∧
        Graph.ofOnnx written = .ok reloaded ∧ reloaded.Same normalized ∧
        ∀ config', (runBuiltin reloaded config').graph.Same normalized := by
  intro bytes g normalized
  have size : bytes.length < 2 ^ 63 := by decide
  have loaded : Graph.ofOnnx bytes = .ok g := by decide
  have saved : normalized.toOnnx = .ok
      [58, 30, 10, 28, 34, 11, 73, 110, 116, 101, 114, 112, 111, 108, 97, 116, 101, 42, 13, 10, 4,
        97, 120, 101, 115, 66, 2, 2, 3, 160, 1, 7] := by decide
  obtain ⟨written, saved', again⟩ := runBuiltin_reload size loaded { strict := true }
  have small : written.length < 2 ^ 63 := by
    rw [Except.ok.inj (saved'.symm.trans saved)]
    decide
  obtain ⟨reloaded, held⟩ := again small
  exact ⟨size, loaded, written, reloaded, saved', small, held⟩

end Normalize

end OperatorGraph
