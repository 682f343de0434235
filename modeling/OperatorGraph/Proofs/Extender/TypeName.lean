import OperatorGraph.Proofs.Extender.Idempotence

/-!
Canonical names of element types among attributes: what is written, what is left alone, and that
writing them once is enough.
-/

namespace OperatorGraph

open Attribute (Store Value)

namespace Extender

/-- Whether a store differs from another one in that the name of a type was written to `target`, and
in nothing else, and whether naming types once more adds nothing: neither from the same source, nor
from what was written. -/
structure Written (store changed : Store) (source target : String) (required : Bool)
    (t : ElementType) : Prop where
  name : changed.get? target = some (.text t.name)
  others : ∀ other, other ≠ target → changed.get? other = store.get? other
  again : changed.nameElementType source target required = .ok changed
  onward : ∀ (target' : String) (required' : Bool),
    changed.nameElementType target target' required' = .ok (changed.insert target' (.text t.name))

/-- What comes of naming the type that `source` holds in `target`, one case for each thing that
`source` can hold. -/
inductive Naming (store : Store) (source target : String) (required : Bool) : Outcome → Prop
  | absent (none : store.get? source = none) (optional : required = false) :
      Naming store source target required { attributes := store }
  | missing (none : store.get? source = none) (needed : required = true) :
      Naming store source target required { attributes := store, faults := [.missing source] }
  | malformed {value : Value} (held : store.get? source = some value)
      (other : ∀ name, value ≠ .text name) :
      Naming store source target required
        { attributes := store, faults := [.malformed source .elementTypeName value.kind] }
  | unknown {name : String} (held : store.get? source = some (.text name))
      (unknown : ElementType.ofName? name = none) :
      Naming store source target required
        { attributes := store, faults := [.unknownElementType source name] }
  | named {name : String} {t : ElementType} {changed : Store}
      (held : store.get? source = some (.text name)) (known : ElementType.ofName? name = some t)
      (written : Written store changed source target required t) :
      Naming store source target required { attributes := changed }

variable {store : Store} {source target name : String} {required : Bool} {t : ElementType}

theorem written_insert (held : store.get? source = some (.text name))
    (known : ElementType.ofName? name = some t) :
    Written store (store.insert target (.text t.name)) source target required t where
  name := by rw [NameMap.get?_insert, if_pos rfl]
  others other apart := by rw [NameMap.get?_insert, if_neg apart]
  again := Rule.nameElementType_again (Rule.nameElementType_ok held known)
  onward target' required' := by
    refine Rule.nameElementType_ok ?_ (ElementType.ofName?_name t)
    rw [NameMap.get?_insert, if_pos rfl]

theorem naming_of_value {value : Value} (held : store.get? source = some value) :
    Naming store source target required
      (.ofChange store (store.nameElementType source target required)) := by
  by_cases text : ∃ name, value = .text name
  · obtain ⟨name, rfl⟩ := text
    cases known : ElementType.ofName? name with
    | none =>
      have fault : store.nameElementType source target required =
          .error (.unknownElementType source name) := by
        simp [Store.nameElementType, held, Value.text, known]
      rw [fault]
      exact .unknown held known
    | some t =>
      rw [Rule.nameElementType_ok held known]
      exact .named held known (written_insert held known)
  · have other : ∀ name, value ≠ .text name := fun name same => text ⟨name, same⟩
    have fault : store.nameElementType source target required =
        .error (.malformed source .elementTypeName value.kind) := by
      unfold Store.nameElementType
      split
      · rename_i absent
        cases held.symm.trans absent
      · rename_i name named
        cases held.symm.trans named
        exact absurd rfl (other name)
      · rename_i found
        cases held.symm.trans found
        rfl
    rw [fault]
    exact .malformed held other

theorem naming (store : Store) (source target : String) (required : Bool) :
    Naming store source target required
      (.ofChange store (store.nameElementType source target required)) := by
  cases held : store.get? source with
  | some value => exact naming_of_value held
  | none =>
    cases required with
    | true =>
      have fault : store.nameElementType source target true = .error (.missing source) := by
        simp [Store.nameElementType, held]
      rw [fault]
      exact .missing held rfl
    | false =>
      have unchanged : store.nameElementType source target false = .ok store := by
        simp [Store.nameElementType, held]
      rw [unchanged]
      exact .absent held rfl

/-- Names of element types are stable, however they are spelled. A text names a type if it is one of
its spellings, and neither the case of ASCII letters nor blanks around a text change what it names.
A store in which a type is named holds the canonical name in `target` and everything else as before,
and naming types once more changes nothing; a fault changes nothing either, and says whether there
is no name, something else than a name, or a name that is not known. -/
theorem nameElementType_stable :
    (∀ (s : String) (t : ElementType), ElementType.ofName? s = some t ↔ t.Names s) ∧
      (∀ s t : String, ElementType.Respells t s →
        ElementType.ofName? t = ElementType.ofName? s) ∧
      ∀ (store : Store) (source target : String) (required : Bool),
        Naming store source target required
          (.ofChange store (store.nameElementType source target required)) :=
  ⟨fun _ _ => ElementType.ofName?_eq_some_iff, fun _ _ => ElementType.ofName?_of_respells, naming⟩

end Extender

end OperatorGraph
