import OperatorGraph.Proofs.Extender.Finite

/-!
Graphs that are loaded from JSON text, normalized and saved. Normalization can turn a number that
the text holds into one that no text can hold.
-/

namespace OperatorGraph.Graph

theorem isFinite_runBuiltin {g : Graph} (finite : g.isFinite = true) (config : Normalize.Config) :
    (Normalize.runBuiltin g config).graph.isFinite = true ↔
      ∀ node ∈ g.nodes, ∀ name ∈ Extender.floatLists node.opType, ∀ v,
        node.attributes.get? name = some v → ¬v.Overflows := by
  have nodes := List.all_eq_true.mp finite
  rw [Normalize.runBuiltin, Normalize.run_graph, isFinite, List.all_map, List.all_eq_true]
  exact forall₂_congr fun node member => Registry.isFinite_extendNode (nodes node member)

/-- A graph that has been read and normalized is read back from its own text exactly if no number
under the name of a list of floats goes beyond single precision. A graph that is read back at all
is the same. -/
theorem readJson_writeJson_runBuiltin {t : String} {g : Graph} (read : readJson t = .ok g)
    (config : Normalize.Config) :
    let normalized := (Normalize.runBuiltin g config).graph
    (readJson normalized.writeJson = .ok normalized ↔
      ∀ node ∈ g.nodes, ∀ name ∈ Extender.floatLists node.opType, ∀ v,
        node.attributes.get? name = some v → ¬v.Overflows) ∧
      ∀ reloaded, readJson normalized.writeJson = .ok reloaded → reloaded = normalized := by
  intro normalized
  simp only [readJson_writeJson_eq_ok_iff, and_true, normalized]
  exact ⟨isFinite_runBuiltin (isFinite_of_readJson read) config, fun _ h => h.2⟩

/-- One of the items of the text names infinity. -/
theorem readJson_writeJson_runBuiltin_infinite :
    let t := "\x7b\"nodes\":[\x7b\"op_type\":\"PriorBox\",\"attributes\":" ++
      "\x7b\"min_size\":\x7b\"Scalar\":\x7b\"Str\":\"16, inf\"\x7d\x7d\x7d\x7d]\x7d"
    let g : Graph :=
      { nodes :=
          [{ opType := "PriorBox"
             attributes := .ofList [("min_size", .scalar (.text "16, inf"))] }] }
    let normalized := (Normalize.runBuiltin g {}).graph
    readJson t = .ok g ∧ readJson normalized.writeJson ≠ .ok normalized := by
  intro t g normalized
  have read : readJson t = .ok g := by decide +kernel
  refine ⟨read, fun reloaded => ?_⟩
  have spared := (readJson_writeJson_runBuiltin read {}).1.mp reloaded _ (List.mem_singleton_self _)
    "min_size" (by decide) (.scalar (.text "16, inf")) (by decide)
  have items : Text.items "16, inf".toList = [['1', '6'], ['i', 'n', 'f']] := by decide
  refine spared ⟨?_, .text "16, inf", List.mem_singleton_self _, ?_⟩
  · intro s member
    cases List.mem_singleton.mp member
    intro item listed
    rw [items] at listed
    rcases List.mem_pair.mp listed with rfl | rfl
    · exact ⟨.finite false ⟨16, 0⟩, by decide⟩
    · exact ⟨.infinite false, by decide⟩
  · exact ⟨['i', 'n', 'f'], by rw [items]; decide, .infinite false, by decide, trivial⟩

/-- A double beyond single precision becomes infinite, and what is saved is not loaded. -/
theorem not_readJson_writeJson_runBuiltin :
    ¬∀ (t : String) (g : Graph) (config : Normalize.Config), readJson t = .ok g →
      readJson (Normalize.runBuiltin g config).graph.writeJson =
        .ok (Normalize.runBuiltin g config).graph := by
  intro stable
  let t := "\x7b\"nodes\":[\x7b\"op_type\":\"PriorBox\",\"attributes\":" ++
    "\x7b\"min_size\":\x7b\"Scalar\":\x7b\"Float\":1e39\x7d\x7d\x7d\x7d]\x7d"
  let g : Graph :=
    { nodes :=
        [{ opType := "PriorBox"
           attributes := .ofList [("min_size", .scalar (.float (.ofBits 0x48078287f49c4a1d)))] }] }
  have read : readJson t = .ok g := by decide +kernel
  have infinite : (Normalize.runBuiltin g {}).graph.isFinite = false := by decide +kernel
  have finite := (readJson_writeJson_eq_ok_iff.mp (stable t g {} read)).1
  cases infinite.symm.trans finite

end OperatorGraph.Graph
