import OperatorGraph.Proofs.Onnx.Reading
import OperatorGraph.Proofs.Wire.Group
import OperatorGraph.Proofs.Wire.Spelling

/-!
How the records of declared fields are picked from bytes: a field that is not declared leaves no
trace, bytes in pieces give their records in pieces, and more room to nest changes nothing that
could be read before.
-/

namespace OperatorGraph.Onnx

open Wire

variable {numbers : List Nat} {levels : Nat}

theorem readDeclared_eq_some_iff {bytes : List UInt8} {kept : Message} :
    readDeclared numbers levels bytes = some kept ↔
      ∃ m : Message, m.Spells bytes ∧ Walk numbers.contains levels [] m [] kept := by
  rw [readDeclared, Option.bind_eq_bind, Option.bind_eq_some_iff]
  simp only [Message.read?_eq_some_iff, declared_eq_some_iff]

theorem readDeclared_insert {depth number : Nat} {outer unknown kept : Message}
    {before field after : List UInt8} (outside : outer.Spells before) (fields : AreFields depth outer)
    (inserted : unknown.Spells field) (whole : IsField levels number unknown)
    (undeclared : number ∉ numbers)
    (read : readDeclared numbers levels (before ++ after) = some kept) :
    readDeclared numbers levels (before ++ (field ++ after)) = some kept := by
  obtain ⟨m, spells, walk⟩ := readDeclared_eq_some_iff.mp read
  obtain ⟨rest, rfl, last⟩ := outside.exists_rest spells
  obtain ⟨groups, first, others, walked, walk', rfl⟩ := Walk.append_iff.mp walk
  obtain ⟨rfl, _⟩ := fields.walk walked
  have skipped : Walk numbers.contains levels [] unknown [] [] :=
    whole.skipped (by simpa using undeclared) le_rfl
  refine readDeclared_eq_some_iff.mpr ⟨outer ++ (unknown ++ rest), ?_, ?_⟩
  · exact outside.append (inserted.append last)
  · have after := Walk.append_iff.mpr ⟨_, _, _, skipped, walk', rfl⟩
    exact Walk.append_iff.mpr ⟨_, _, _, walked, after, rfl⟩

theorem readDeclared_append {bytes bytes' : List UInt8} {kept kept' : Message}
    (first : readDeclared numbers levels bytes = some kept)
    (second : readDeclared numbers levels bytes' = some kept') :
    readDeclared numbers levels (bytes ++ bytes') = some (kept ++ kept') := by
  obtain ⟨m, spells, walk⟩ := readDeclared_eq_some_iff.mp first
  obtain ⟨m', spells', walk'⟩ := readDeclared_eq_some_iff.mp second
  exact readDeclared_eq_some_iff.mpr
    ⟨m ++ m', spells.append spells', Walk.append_iff.mpr ⟨_, _, _, walk, walk', rfl⟩⟩

theorem readDeclared_flatten {pieces : List (List UInt8)} {ms : List Message}
    (h : List.Forall₂ (fun piece m => readDeclared numbers levels piece = some m) pieces ms) :
    readDeclared numbers levels pieces.flatten = some ms.flatten := by
  induction h with
  | nil => rfl
  | cons first _ ih => exact readDeclared_append first ih

theorem readDeclared_mono {levels' : Nat} (room : levels ≤ levels') {bytes : List UInt8}
    {kept : Message} (h : readDeclared numbers levels bytes = some kept) :
    readDeclared numbers levels' bytes = some kept := by
  obtain ⟨m, spells, walk⟩ := readDeclared_eq_some_iff.mp h
  exact readDeclared_eq_some_iff.mpr ⟨m, spells, walk.mono room⟩

section Nested

variable {α : Type} {read read' : Message → Option α} {inputs : List (List UInt8)}

theorem eachNested_succ (h : 0 < levels → ∀ m a, read m = some a → read' m = some a)
    {as : List α} (done : eachNested numbers read levels inputs = some as) :
    eachNested numbers read' (levels + 1) inputs = some as := by
  have related := eachNested_spec done
  cases inputs with
  | nil =>
    cases related
    rfl
  | cons input rest =>
    refine mapM_eq_some_iff.mpr (related.imp ?_)
    rintro input a ⟨pos, m, declared, done⟩
    rw [readDeclared_mono (Nat.sub_le levels 1) declared]
    exact h pos m a done

theorem oneNested_succ (h : 0 < levels → ∀ m a, read m = some a → read' m = some a)
    {a? : Option α} (done : oneNested numbers read levels inputs = some a?) :
    oneNested numbers read' (levels + 1) inputs = some a? := by
  rcases oneNested_spec done with ⟨rfl, rfl⟩ | ⟨ms, a, nonempty, pos, declared, inner, rfl⟩
  · rfl
  · obtain ⟨input, rest, rfl⟩ := List.exists_cons_of_ne_nil nonempty
    have again := mapM_eq_some_iff.mpr
      (declared.imp fun _ _ => readDeclared_mono (Nat.sub_le levels 1))
    simp [oneNested, again, h pos _ _ inner]

end Nested

theorem Attribute.ofMessage?_succ
    (graphs : 0 < levels → ∀ m g, Graph.ofMessage? (levels - 1) m = some g →
      Graph.ofMessage? levels m = some g) {m : Message} {a : Attribute}
    (h : ofMessage? levels m = some a) : ofMessage? (levels + 1) m = some a := by
  have held := ofMessage?_eq_some_iff.mp h
  obtain ⟨_, tensors, t⟩ := Option.bind_eq_some_iff.mp held.t
  obtain ⟨_, inputs, g⟩ := Option.bind_eq_some_iff.mp held.g
  refine ofMessage?_eq_some_iff.mpr { held with t := ?_, g := ?_ }
  · exact Option.bind_eq_some_iff.mpr ⟨_, tensors, oneNested_succ (fun _ _ _ => id) t⟩
  · exact Option.bind_eq_some_iff.mpr ⟨_, inputs, oneNested_succ graphs g⟩

theorem Node.ofMessage?_succ
    (attributes : 0 < levels → ∀ m a, Attribute.ofMessage? (levels - 1) m = some a →
      Attribute.ofMessage? levels m = some a) {m : Message} {n : Node}
    (h : ofMessage? levels m = some n) : ofMessage? (levels + 1) m = some n := by
  have held := ofMessage?_eq_some_iff.mp h
  obtain ⟨_, inputs, done⟩ := Option.bind_eq_some_iff.mp held.attributes
  refine ofMessage?_eq_some_iff.mpr { held with attributes := ?_ }
  exact Option.bind_eq_some_iff.mpr ⟨_, inputs, eachNested_succ attributes done⟩

theorem Graph.ofMessage?_succ
    (nodes : 0 < levels → ∀ m n, Node.ofMessage? (levels - 1) m = some n →
      Node.ofMessage? levels m = some n) {m : Message} {g : Graph}
    (h : ofMessage? levels m = some g) : ofMessage? (levels + 1) m = some g := by
  have held := ofMessage?_eq_some_iff.mp h
  obtain ⟨_, nodeInputs, nodesDone⟩ := Option.bind_eq_some_iff.mp held.nodes
  obtain ⟨_, tensorInputs, tensors⟩ := Option.bind_eq_some_iff.mp held.initializers
  obtain ⟨_, inputInputs, inputs⟩ := Option.bind_eq_some_iff.mp held.inputs
  obtain ⟨_, outputInputs, outputs⟩ := Option.bind_eq_some_iff.mp held.outputs
  refine ofMessage?_eq_some_iff.mpr
    { held with nodes := ?_, initializers := ?_, inputs := ?_, outputs := ?_ }
  · exact Option.bind_eq_some_iff.mpr ⟨_, nodeInputs, eachNested_succ nodes nodesDone⟩
  · exact Option.bind_eq_some_iff.mpr ⟨_, tensorInputs, eachNested_succ (fun _ _ _ => id) tensors⟩
  · exact Option.bind_eq_some_iff.mpr ⟨_, inputInputs, eachNested_succ (fun _ _ _ => id) inputs⟩
  · exact Option.bind_eq_some_iff.mpr ⟨_, outputInputs, eachNested_succ (fun _ _ _ => id) outputs⟩

/-- Whether one level more to nest changes nothing that could be read before. -/
structure Grows (levels : Nat) : Prop where
  attributes (m : Message) (a : Attribute) : Attribute.ofMessage? levels m = some a →
    Attribute.ofMessage? (levels + 1) m = some a
  nodes (m : Message) (n : Node) : Node.ofMessage? levels m = some n →
    Node.ofMessage? (levels + 1) m = some n
  graphs (m : Message) (g : Graph) : Graph.ofMessage? levels m = some g →
    Graph.ofMessage? (levels + 1) m = some g

theorem grows (levels : Nat) : Grows levels := by
  induction levels with
  | zero =>
    have never {p : Prop} (h : 0 < 0) : p := absurd h (Nat.lt_irrefl 0)
    exact ⟨fun _ _ => Attribute.ofMessage?_succ never, fun _ _ => Node.ofMessage?_succ never,
      fun _ _ => Graph.ofMessage?_succ never⟩
  | succ levels ih =>
    constructor
    · intro m a h
      refine Attribute.ofMessage?_succ ?_ h
      intro _
      exact ih.graphs
    · intro m n h
      refine Node.ofMessage?_succ ?_ h
      intro _
      exact ih.attributes
    · intro m g h
      refine Graph.ofMessage?_succ ?_ h
      intro _
      exact ih.nodes

theorem Graph.ofMessage?_mono {levels' : Nat} (room : levels ≤ levels') {m : Message} {g : Graph}
    (h : ofMessage? levels m = some g) : ofMessage? levels' m = some g := by
  induction room with
  | refl => exact h
  | step _ ih => exact (grows _).graphs m g ih

end OperatorGraph.Onnx
