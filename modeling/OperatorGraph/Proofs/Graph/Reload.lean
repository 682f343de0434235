import OperatorGraph.Proofs.Graph.Size

/-!
Loading a graph, writing it and loading it again: nothing changes that graphs are compared by, and
the second time not a single byte does.
-/

namespace OperatorGraph.Graph

open Onnx

variable {bytes : List UInt8} {g : Graph}

theorem exists_model_of_ofOnnx (h : ofOnnx bytes = .ok g) :
    ∃ x, ofModel x = .ok g ∧ x.depth ≤ nestingLimit ∧
      (Model.codec.toMessage x).weight ≤ 2 * bytes.length := by
  unfold ofOnnx at h
  split at h
  · rename_i x decoded
    obtain ⟨m, small, read⟩ := decode?_spec decoded
    refine ⟨x, h, Model.depth_le read, ?_⟩
    exact (Model.doubles m x read).trans (Nat.mul_le_mul_left 2 small)
  · cases h

/-- A graph that has been loaded is one that the format expresses. -/
theorem portable_of_ofOnnx (size : bytes.length < 2 ^ 63) (h : ofOnnx bytes = .ok g) :
    g.Portable := by
  obtain ⟨x, read, deep, small⟩ := exists_model_of_ofOnnx h
  have fits := (Wire.Message.length_write_le (Model.codec.toMessage x)).trans small
  exact portable_of_ofModel read deep (lt_of_le_of_lt fits (by omega))

/-- What has been loaded can be written, and what is written then loads as the same graph and is
written as the same bytes again. Bytes in memory are always fewer than `2 ^ 63`. -/
theorem ofOnnx_toOnnx (size : bytes.length < 2 ^ 63) (loaded : ofOnnx bytes = .ok g) :
    ∃ written reloaded, g.toOnnx = .ok written ∧ ofOnnx written = .ok reloaded ∧
      reloaded.Same g ∧ reloaded.toOnnx = .ok written := by
  obtain ⟨x, read, deep, small⟩ := exists_model_of_ofOnnx loaded
  have fits : (Model.codec.encode x).length < 2 ^ 64 :=
    lt_of_le_of_lt ((Wire.Message.length_write_le _).trans small) (by omega)
  obtain ⟨same, x', written, deep'⟩ := portable (portable_of_ofOnnx size loaded)
  have lighter := Graph.weight_le read written deep fits
  have fits' : (Model.codec.encode x').length < 2 ^ 64 :=
    lt_of_le_of_lt (((Wire.Message.length_write_le _).trans lighter).trans small) (by omega)
  obtain ⟨reloaded, rewritten⟩ := reload written deep' fits'
  have bytes : g.toOnnx = .ok (Model.codec.encode x') := by
    rw [toOnnx, written]
    rfl
  exact ⟨_, g.canonical, bytes, reloaded, same, rewritten⟩

/-- A negative zero in an attribute of its own is read as it is, though it is not written. -/
theorem ofOnnx_toOnnx_negativeZero :
    let bytes : List UInt8 :=
      [58, 21, 10, 19, 34, 4, 82, 101, 108, 117, 42, 11, 10, 1, 120, 21, 0, 0, 0, 128, 160, 1, 1]
    let g : Graph :=
      { nodes :=
          [{ opType := "Relu"
             attributes := .ofList [("x", .scalar (.float ⟨true, 0, by decide⟩))] }] }
    bytes.length < 2 ^ 63 ∧ ofOnnx bytes = .ok g ∧
      ∃ written reloaded, g.toOnnx = .ok written ∧ ofOnnx written = .ok reloaded ∧
        reloaded.Same g ∧ reloaded.toOnnx = .ok written := by
  intro bytes g
  have size : bytes.length < 2 ^ 63 := by decide
  have loaded : ofOnnx bytes = .ok g := by decide
  exact ⟨size, loaded, ofOnnx_toOnnx size loaded⟩

end OperatorGraph.Graph
