import OperatorGraph.Proofs.Extender.Documented
import OperatorGraph.Proofs.Idempotence

/-!
What becomes of payloads. No rule can read one, so it stays where it is unless a rule writes over
its name, and then it is not the payload that the rule is about.
-/

namespace OperatorGraph

namespace Extender

open Attribute (Payload Store Value)

namespace Rule

/-- The names under which a rule may put something else than what it makes of the value there. -/
def replaces : Rule → List String
  | coerce _ _ | mask _ | shape _ | perDimension _ => []
  | elementType source target _ => if target = source then [] else [target]
  | rename source target => [source, target]
  | set name _ | flagUnusedOutput name => [name]
  | fullRank _ target _ => [target]
  | pads _ _ target dimensions => [target, dimensions]

variable {node : Node} {store : Store} {name : String} {p : Payload}

theorem coerce_payload (c : Attribute.Coercion) (held : store.get? name = some (.payload p)) :
    (Outcome.coerce c name store).attributes = store := by
  rw [Outcome.coerce_attributes, held]
  cases c <;> rfl

theorem apply_payload (r : Rule) (held : store.get? name = some (.payload p))
    (kept : name ∉ r.replaces) :
    (r.apply node store).attributes.get? name = some (.payload p) := by
  by_cases written : name ∈ r.writes
  · suffices same : (r.apply node store).attributes = store by rw [same, held]
    cases r with
    | coerce c other =>
      cases List.mem_singleton.mp written
      exact coerce_payload c held
    | mask other =>
      cases List.mem_singleton.mp written
      simp only [apply, applyMask_eq, held, isBlank, Bool.false_eq_true, if_false]
      exact coerce_payload _ held
    | shape other =>
      cases List.mem_singleton.mp written
      simp only [apply, applyShape_eq, Store.text?, held]
      exact coerce_payload _ held
    | perDimension other =>
      cases List.mem_singleton.mp written
      simp only [apply, applyPerDimension_attributes, Store.int?, held]
    | elementType source target required =>
      cases List.mem_singleton.mp written
      have same : name = source := by
        by_contra apart
        simp [replaces, apart] at kept
      simp only [apply, nameElementType_attributes, Store.text?, ← same, held]
      rfl
    | rename source target => exact absurd written kept
    | set other value => exact absurd written kept
    | flagUnusedOutput other => exact absurd written kept
    | fullRank source target leading => exact absurd written kept
    | pads first last target dimensions => exact absurd written kept
  · rw [apply_frame r store written, held]

theorem applyAll_payload {rules : List Rule} (held : store.get? name = some (.payload p))
    (kept : ∀ r ∈ rules, name ∉ r.replaces) :
    (applyAll node rules store).attributes.get? name = some (.payload p) := by
  induction rules generalizing store with
  | nil => exact held
  | cons r rest ih =>
    rw [applyAll_cons]
    exact ih (apply_payload r held (kept r List.mem_cons_self)) fun later member =>
      kept later (List.mem_cons_of_mem r member)

end Rule

/-- The attributes that extenders put in place of what stands there, in operators of some types. -/
def derivedAttributes : List (List String × List String) :=
  [(convolutionTypes,
      ["stride", "dilation", "output_pad", "pad", "spatial_dims", "batch_dims", "channel_dims",
        "input_feature_channel", "output_feature_channel"]),
    (["Pad"], ["pad_mode", "mode"]),
    (["Convert"], ["dst_type"]),
    (["TopK"], ["remove_values_output"]),
    (["Parameter"], ["data_type"]),
    (["FakeQuantize"], ["stop_value_propagation"])]

def derivedNames (opType : String) : List String :=
  derivedAttributes.flatMap fun (opTypes, names) => if opTypes.contains opType then names else []

theorem builtinRules_replaces : ∀ s ∈ builtinRules,
    ∀ r ∈ s.rules, ∀ name ∈ r.replaces, name ∈ derivedNames s.opType := by
  decide +kernel

end Extender

/-- A payload that no extender writes over stays as it is. -/
theorem Registry.extendNode_payload {node : Node} {name : String} {p : Attribute.Payload}
    (held : node.attributes.get? name = some (.payload p))
    (kept : name ∉ Extender.derivedNames node.opType) :
    (builtin.extendNode node).attributes.get? name = some (.payload p) := by
  unfold extendNode
  split
  · exact held
  · rename_i e found
    obtain ⟨member, same⟩ := mem_of_lookup_builtin found
    obtain ⟨s, listed, rfl⟩ := Extender.mem_builtins_iff.mp member
    refine Extender.Rule.applyAll_payload held fun r inside replaced => kept ?_
    exact same ▸ Extender.builtinRules_replaces s listed r inside name replaced

end OperatorGraph
