import OperatorGraph.Graph.Agreement
import OperatorGraph.Proofs.NameMap
import OperatorGraph.Proofs.Traversal

/-!
Sameness of graphs: agreement, except that every NaN is the same as every other. Unlike agreement it
is an equivalence, and on graphs without NaNs the two coincide.
-/

namespace OperatorGraph

namespace Binary.Number

variable {f : Format} {x y z : Number f}

def Same (x y : Number f) : Prop := x.agrees y = true ∨ x.isNaN = true ∧ y.isNaN = true

theorem agrees_iff : x.agrees y = true ↔
    x.isNaN = false ∧ y.isNaN = false ∧ (x = y ∨ x.isZero = true ∧ y.isZero = true) := by
  simp [agrees, and_assoc]

theorem Same.refl (x : Number f) : x.Same x := by
  cases nan : x.isNaN with
  | true => exact .inr ⟨nan, nan⟩
  | false => exact .inl (agrees_iff.mpr ⟨nan, nan, .inl rfl⟩)

theorem Same.symm (h : x.Same y) : y.Same x := by
  rcases h with agree | ⟨nan, nan'⟩
  · obtain ⟨ordinary, ordinary', same⟩ := agrees_iff.mp agree
    exact .inl (agrees_iff.mpr ⟨ordinary', ordinary, same.imp Eq.symm And.symm⟩)
  · exact .inr ⟨nan', nan⟩

theorem Same.isNaN_eq (h : x.Same y) : x.isNaN = y.isNaN := by
  rcases h with agree | ⟨nan, nan'⟩
  · obtain ⟨ordinary, ordinary', _⟩ := agrees_iff.mp agree
    rw [ordinary, ordinary']
  · rw [nan, nan']

theorem Same.trans (h : x.Same y) (h' : y.Same z) : x.Same z := by
  cases nan : x.isNaN with
  | true => exact .inr ⟨nan, by rw [← h'.isNaN_eq, ← h.isNaN_eq, nan]⟩
  | false =>
    have nan' := h.isNaN_eq ▸ nan
    have agree := h.resolve_right fun both => Bool.false_ne_true (nan.symm.trans both.1)
    have agree' := h'.resolve_right fun both => Bool.false_ne_true (nan'.symm.trans both.1)
    obtain ⟨_, _, same⟩ := agrees_iff.mp agree
    obtain ⟨_, ordinary, same'⟩ := agrees_iff.mp agree'
    refine .inl (agrees_iff.mpr ⟨nan, ordinary, ?_⟩)
    rcases same with rfl | ⟨zero, zero'⟩
    · exact same'
    · rcases same' with rfl | ⟨_, zero''⟩
      · exact .inr ⟨zero, zero'⟩
      · exact .inr ⟨zero, zero''⟩

end Binary.Number

namespace Attribute

def Scalar.Same : Scalar → Scalar → Prop
  | .float x, .float y => Binary.Number.Same x y
  | a, b => a = b

def Value.Same : Value → Value → Prop
  | .scalar a, .scalar b => a.Same b
  | .list as, .list bs => List.Forall₂ Scalar.Same as bs
  | a, b => a = b

/-- The same names, each with the same value. -/
def Store.Same (a b : Store) : Prop := NameMap.EntriesRelated Value.Same a.entries b.entries

theorem Scalar.same_cases {a b : Scalar} (h : a.Same b) :
    a = b ∨ ∃ x y, a = .float x ∧ b = .float y ∧ Binary.Number.Same x y := by
  unfold Same at h
  split at h
  · exact .inr ⟨_, _, rfl, rfl, h⟩
  · exact .inl h

theorem Scalar.Same.refl (a : Scalar) : a.Same a := by
  cases a with
  | float x => exact Binary.Number.Same.refl x
  | _ => rfl

theorem Scalar.Same.symm {a b : Scalar} (h : a.Same b) : b.Same a := by
  rcases same_cases h with rfl | ⟨x, y, rfl, rfl, same⟩
  · exact .refl a
  · exact Binary.Number.Same.symm same

theorem Scalar.Same.trans {a b c : Scalar} (h : a.Same b) (h' : b.Same c) : a.Same c := by
  rcases same_cases h with rfl | ⟨x, y, rfl, rfl, same⟩
  · exact h'
  · rcases same_cases h' with rfl | ⟨y', z, eq, rfl, same'⟩
    · exact h
    · cases eq
      exact Binary.Number.Same.trans same same'

theorem Value.same_cases {a b : Value} (h : a.Same b) :
    a = b ∨ (∃ x y, a = .scalar x ∧ b = .scalar y ∧ x.Same y) ∨
      ∃ xs ys, a = .list xs ∧ b = .list ys ∧ List.Forall₂ Scalar.Same xs ys := by
  unfold Same at h
  split at h
  · exact .inr (.inl ⟨_, _, rfl, rfl, h⟩)
  · exact .inr (.inr ⟨_, _, rfl, rfl, h⟩)
  · exact .inl h

theorem Value.Same.refl (a : Value) : a.Same a := by
  cases a with
  | scalar s => exact Scalar.Same.refl s
  | list elements => exact List.forall₂_same.mpr fun s _ => .refl s
  | payload p => rfl

theorem Value.Same.symm {a b : Value} (h : a.Same b) : b.Same a := by
  rcases same_cases h with rfl | ⟨x, y, rfl, rfl, same⟩ | ⟨xs, ys, rfl, rfl, same⟩
  · exact .refl a
  · exact Scalar.Same.symm same
  · exact (same.imp fun _ _ => Scalar.Same.symm).flip

theorem Value.Same.trans {a b c : Value} (h : a.Same b) (h' : b.Same c) : a.Same c := by
  rcases same_cases h with rfl | ⟨x, y, rfl, rfl, same⟩ | ⟨xs, ys, rfl, rfl, same⟩
  · exact h'
  · rcases same_cases h' with rfl | ⟨y', z, eq, rfl, same'⟩ | ⟨_, _, eq, _⟩
    · exact h
    · cases eq
      exact Scalar.Same.trans same same'
    · cases eq
  · rcases same_cases h' with rfl | ⟨_, _, eq, _⟩ | ⟨ys', zs, eq, rfl, same'⟩
    · exact h
    · cases eq
    · cases eq
      exact forall₂_trans same same' fun _ _ _ => Scalar.Same.trans

theorem Store.same_iff {a b : Store} :
    a.Same b ↔ ∀ name, Option.Rel Value.Same (a.get? name) (b.get? name) :=
  NameMap.entriesRelated_iff

theorem Store.Same.refl (a : Store) : a.Same a :=
  List.forall₂_same.mpr fun e _ => ⟨rfl, .refl e.2⟩

theorem Store.Same.symm {a b : Store} (h : a.Same b) : b.Same a :=
  (h.imp fun _ _ same => ⟨same.1.symm, Value.Same.symm same.2⟩).flip

theorem Store.Same.trans {a b c : Store} (h : a.Same b) (h' : b.Same c) : a.Same c :=
  forall₂_trans h h' fun _ _ _ same same' => ⟨same.1.trans same'.1, same.2.trans same'.2⟩

end Attribute

def Node.Same (a b : Node) : Prop :=
  { a with attributes := .empty } = { b with attributes := .empty } ∧
    Attribute.Store.Same a.attributes b.attributes

def Graph.Same (a b : Graph) : Prop :=
  { a with nodes := [] } = { b with nodes := [] } ∧ List.Forall₂ Node.Same a.nodes b.nodes

theorem Node.Same.refl (a : Node) : a.Same a := ⟨rfl, .refl a.attributes⟩

theorem Node.Same.symm {a b : Node} (h : a.Same b) : b.Same a := ⟨h.1.symm, h.2.symm⟩

theorem Node.Same.trans {a b c : Node} (h : a.Same b) (h' : b.Same c) : a.Same c :=
  ⟨h.1.trans h'.1, h.2.trans h'.2⟩

theorem Node.Same.opType {a b : Node} (h : a.Same b) : a.opType = b.opType := (Node.mk.inj h.1).1

theorem Graph.Same.refl (a : Graph) : a.Same a := ⟨rfl, List.forall₂_same.mpr fun n _ => .refl n⟩

theorem Graph.Same.symm {a b : Graph} (h : a.Same b) : b.Same a :=
  ⟨h.1.symm, (h.2.imp fun _ _ => Node.Same.symm).flip⟩

theorem Graph.Same.trans {a b c : Graph} (h : a.Same b) (h' : b.Same c) : a.Same c :=
  ⟨h.1.trans h'.1, forall₂_trans h.2 h'.2 fun _ _ _ => Node.Same.trans⟩

namespace Attribute

def Scalar.hasNaN : Scalar → Bool
  | .float x => Binary.Number.isNaN x
  | _ => false

def Value.hasNaN : Value → Bool
  | .scalar s => s.hasNaN
  | .list elements => elements.any Scalar.hasNaN
  | .payload _ => false

theorem Scalar.same_iff_agrees {a b : Scalar} (h : a.hasNaN = false) :
    a.Same b ↔ a.agrees b = true := by
  cases a with
  | float x =>
    cases b with
    | float y =>
      have ordinary : Binary.Number.isNaN x = false := h
      simp [Same, agrees, Binary.Number.Same, ordinary]
    | _ => simp [Same, agrees]
  | _ => simp [Same, agrees]

theorem Value.same_iff_agrees {a b : Value} (h : a.hasNaN = false) :
    a.Same b ↔ a.agrees b = true := by
  cases a with
  | scalar s =>
    cases b with
    | scalar t => exact Scalar.same_iff_agrees h
    | _ => simp [Same, agrees]
  | list elements =>
    cases b with
    | list elements' =>
      refine (forall₂_congr_left fun s member t => ?_).trans isEqv_iff.symm
      exact Scalar.same_iff_agrees (Bool.not_eq_true _ ▸ List.any_eq_false.mp h s member)
    | _ => simp [Same, agrees]
  | payload p => simp [Same, agrees]

end Attribute

/-- Without NaNs sameness is what graphs are compared by. -/
theorem Graph.same_iff_agrees {a b : Graph}
    (h : ∀ n ∈ a.nodes, ∀ e ∈ n.attributes.entries, e.2.hasNaN = false) :
    a.Same b ↔ a.agrees b = true := by
  have nodes : List.Forall₂ Node.Same a.nodes b.nodes ↔
      a.nodes.isEqv b.nodes Node.agrees = true := by
    rw [isEqv_iff]
    apply forall₂_congr_left
    intro n member n'
    have attributes : n.attributes.Same n'.attributes ↔
        n.attributes.agrees n'.attributes = true := by
      refine (forall₂_congr_left fun e held e' => ?_).trans isEqv_iff.symm
      rw [Attribute.Value.same_iff_agrees (h n member e held), Bool.and_eq_true, decide_eq_true_eq]
    rw [Node.Same, attributes, Node.agrees, Bool.and_eq_true, decide_eq_true_eq]
  rw [Same, nodes, agrees, Bool.and_eq_true, decide_eq_true_eq]

end OperatorGraph
